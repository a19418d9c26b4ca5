import ScriptMaps.Proofs.Include.Locality
import ScriptMaps.Proofs.Tracker.Includes

-- Settings that do not depend on the working directory are presupposed, so that a file is tracked at the path
-- at which it is read.

namespace ScriptMaps.Tracker

variable {workingDir : Path} {sources : Sources} {t t' : Tracker} {f p : Path}
variable {map : String} {point : QueryPoint}

-- A tracker that came to track some more scripts, with the texts that are read anyway.
structure Extends (sources : Sources) (t t' : Tracker) : Prop where
  config   : t'.config = t.config
  resolver : t'.resolver = t.resolver
  find?    : ∀ {f script}, t.scripts.find? f = some script → t'.scripts.find? f = some script
  agree    : (sources.under t'.scripts).Agree (sources.under t.scripts)

namespace Extends

theorem refl (sources : Sources) (t : Tracker) : t.Extends sources t :=
  ⟨rfl, rfl, id, .refl _⟩

theorem trans {t'' : Tracker} (h : t.Extends sources t') (h' : t'.Extends sources t'') :
    t.Extends sources t'' where
  config   := h'.config.trans h.config
  resolver := h'.resolver.trans h.resolver
  find? hf := h'.find? (h.find? hf)
  agree    := h'.agree.trans h.agree

theorem key_eq (h : t.Extends sources t') (p : Path) : t'.key p = t.key p := by
  rw [key, h.resolver, key]

theorem traverse_eq (h : t.Extends sources t') (p : Path) :
    t'.traverse sources p = t.traverse sources p := by
  rw [traverse, h.resolver, h.agree.traverse, traverse]

theorem script?_eq {script : Script} (h : t.Extends sources t') (hs : t.script? p = some script) :
    t'.script? p = some script := by
  rw [script?, h.key_eq]
  exact h.find? hs

theorem keys_eq (h : t.Extends sources t') (hp : t.isTracked p) :
    t'.keys p map point = t.keys p map point := by
  obtain ⟨script, hs⟩ := Option.isSome_iff_exists.mp hp
  simp only [keys, hs, h.script?_eq hs]

theorem share_eq (h : t.Extends sources t') (hf : f.identity = f) :
    t'.share sources map f = t.share sources map f := by
  simp only [share, h.agree.read hf]

-- The answer across includes is the same if the tracked script itself has the same keys.
theorem keysWithIncludes_congr (h : t.Extends sources t') (hr : t.resolver.IsAbsolute)
    (hk : t'.keys p map point = t.keys p map point) :
    (t'.keysWithIncludes sources p map point).2 = (t.keysWithIncludes sources p map point).2 := by
  have hshare : ∀ f ∈ (t.traverse sources p).files,
      t'.share sources map f = t.share sources map f :=
    fun f hf => h.share_eq (Resolver.isNormal_of_mem_files hf).identity_eq
  rw [(keysWithIncludes_of_isAbsolute hr ..).left,
    (keysWithIncludes_of_isAbsolute (h.resolver ▸ hr) ..).left, h.traverse_eq, hk,
    List.flatMap_congr fun f hf => congrArg MapKeys.directKeys (hshare f hf),
    List.flatMap_congr fun f hf => congrArg MapKeys.functionKeys (hshare f hf)]

end Extends

theorem entries_keysWithIncludes (hr : t.resolver.IsAbsolute) (sources : Sources) (p : Path)
    (map : String) (point : QueryPoint) :
    (t.keysWithIncludes sources p map point).1.scripts.entries =
      t.scripts.entries ++ (t.traverse sources p).files.filterMap (t.addition? sources) :=
  (keysWithIncludes_of_isAbsolute hr sources p map point).right

theorem addition?_eq_some {e : Path × Script} (h : t.addition? sources f = some e) :
    e.1 = f ∧ ¬t.isTracked f ∧ (sources.under t.scripts).read f = .ok e.2.source := by
  rw [addition?] at h
  split at h
  case isTrue     => simp at h
  case isFalse hn =>
    split at h
    case h_1 text ht =>
      cases h
      exact ⟨rfl, hn, ht⟩
    case h_2 => simp at h

-- A script that is new in the table is that of a file that was come to and read.
theorem find?_additions {script : Script} (hf : f.identity = f)
    (h : (((t.traverse sources p).files.filterMap (t.addition? sources)).find? (·.1 == f)).map (·.2) =
      some script) :
    f ∈ (t.traverse sources p).files ∧ (sources.under t.scripts).read f = .ok script.source := by
  obtain ⟨e, he, rfl⟩ := Option.map_eq_some_iff.mp h
  have heq : e.1 == f := by simpa using List.find?_some he
  obtain ⟨g, hg, hadd⟩ := List.mem_filterMap.mp <| List.mem_of_find?_eq_some he
  obtain ⟨rfl, _, hread⟩ := addition?_eq_some hadd
  have hfg : f = e.1 :=
    (Resolver.isNormal_of_mem_files hg).eq_of_beq hf <| Path.beq_iff.mpr (Path.beq_iff.mp heq).symm
  exact hfg ▸ ⟨hg, hread⟩

-- After a question a file is tracked as before, or it is tracked anew with the text that was read for it.
theorem find?_keysWithIncludes (hr : t.resolver.IsAbsolute) (sources : Sources) (p : Path)
    (map : String) (point : QueryPoint) (hf : f.identity = f) :
    (t.keysWithIncludes sources p map point).1.scripts.find? f = t.scripts.find? f ∨
      ∃ script, (t.keysWithIncludes sources p map point).1.scripts.find? f = some script ∧
        f ∈ (t.traverse sources p).files ∧ (sources.under t.scripts).read f = .ok script.source := by
  rw [PathTable.find?_of_entries_append <| entries_keysWithIncludes hr sources p map point]
  cases hs : t.scripts.find? f
  case some => exact .inl rfl
  case none =>
    rw [Option.none_or]
    refine (Option.eq_none_or_eq_some _).imp_right ?_
    intro ⟨script, hs⟩
    exact ⟨script, hs, find?_additions hf hs⟩

theorem extends_keysWithIncludes (hr : t.resolver.IsAbsolute) (sources : Sources) (p : Path)
    (map : String) (point : QueryPoint) :
    t.Extends sources (t.keysWithIncludes sources p map point).1 := by
  obtain ⟨hconfig, hresolver⟩ :=
    collect_preserves sources t map (t.traverse sources p).files (t.keys p map point)
  refine ⟨hconfig, hresolver, ?find, ?isFile, ?read⟩
  case find =>
    intro f script hs
    rw [PathTable.find?_of_entries_append <| entries_keysWithIncludes hr sources p map point, hs,
      Option.some_or]
  case isFile =>
    intro f hf
    obtain he | ⟨script, he, hm, _⟩ := find?_keysWithIncludes hr sources p map point hf
    case inl => simp only [Sources.under, PathTable.contains, hf, he]
    case inr =>
      rw [Resolver.isFile_of_mem_files hm]
      simp only [Sources.under, PathTable.contains, hf, he, Option.isSome_some, Bool.true_or]
  case read =>
    intro f hf
    obtain he | ⟨script, he, _, hread⟩ := find?_keysWithIncludes hr sources p map point hf
    case inl => simp only [Sources.under, hf, he]
    case inr =>
      rw [hread]
      simp only [Sources.under, hf, he]

-- A question about a Map at a point of a script and across the files that it includes.
structure Question where
  path  : Path
  map   : String
  point : QueryPoint

-- The tracker after questions have been asked one after the other, with the sources as they are.
def askAll (t : Tracker) (sources : Sources) (questions : List Question) : Tracker :=
  questions.foldl (fun t q => (t.keysWithIncludes sources q.path q.map q.point).1) t

theorem extends_askAll (hr : t.resolver.IsAbsolute) (sources : Sources) (questions : List Question) :
    t.Extends sources (t.askAll sources questions) := by
  induction questions generalizing t
  case nil => exact .refl sources t
  case cons q questions hi =>
    have h := extends_keysWithIncludes hr sources q.path q.map q.point
    exact h.trans <| hi (h.resolver ▸ hr)

-- The script that a question starts from is not among the files that it comes to.
theorem keys_keysWithIncludes (hr : t.resolver.IsAbsolute) :
    (t.keysWithIncludes sources p map point).1.keys p map point = t.keys p map point := by
  have h := extends_keysWithIncludes hr sources p map point
  have hs : (t.keysWithIncludes sources p map point).1.script? p = t.script? p := by
    rw [script?, h.key_eq, script?]
    obtain he | ⟨_, _, hm, _⟩ := find?_keysWithIncludes hr sources p map point (f := t.key p)
      (Path.identity_identity _)
    case inl => exact he
    case inr => exact absurd (t.root_traverse sources p ▸ hm) (List.nodup_cons.mp Resolver.nodup_entered).left
  simp only [keys, hs]

-- A file that was come to and is not tracked after a question could not be read, and still cannot be.
theorem addition?_keysWithIncludes (hr : t.resolver.IsAbsolute)
    (hf : f ∈ (t.traverse sources p).files) :
    (t.keysWithIncludes sources p map point).1.addition? sources f = none := by
  have h := extends_keysWithIncludes hr sources p map point
  have hset := settled_of_mem_files hr hf
  rw [addition?]
  split
  case isTrue     => rfl
  case isFalse hn =>
    rw [h.agree.read hset.identity_eq]
    split
    case h_2         => rfl
    case h_1 text ht =>
      have hfind := (hset.congr h.resolver).script?_eq
      have hu : ¬t.isTracked f := by
        intro hu
        obtain ⟨script, hs⟩ := Option.isSome_iff_exists.mp hu
        exact hn <| by rw [isTracked, hfind, h.find? (hset.script?_eq ▸ hs), Option.isSome_some]
      have hadd : t.addition? sources f = some (f, Script.ofText text) := by simp [addition?, hu, ht]
      have hm : (f, Script.ofText text) ∈ (t.keysWithIncludes sources p map point).1.scripts.entries := by
        rw [entries_keysWithIncludes hr]
        exact List.mem_append_right _ <| List.mem_filterMap.mpr ⟨f, hf, hadd⟩
      exact absurd (by rw [isTracked, hfind]; exact PathTable.contains_of_mem hm) hn

theorem eq_of_entries (hc : t'.config = t.config) (hr : t'.resolver = t.resolver)
    (he : t'.scripts.entries = t.scripts.entries) : t' = t := by
  obtain ⟨_, _, ⟨_⟩⟩ := t
  obtain ⟨_, _, ⟨_⟩⟩ := t'
  simp_all

theorem keysWithIncludes_again (hr : t.resolver.IsAbsolute) (sources : Sources) (p : Path)
    (map : String) (point : QueryPoint) :
    (t.keysWithIncludes sources p map point).1.keysWithIncludes sources p map point =
      t.keysWithIncludes sources p map point := by
  have h := extends_keysWithIncludes hr sources p map point
  have hr' : (t.keysWithIncludes sources p map point).1.resolver.IsAbsolute := h.resolver ▸ hr
  have h' := extends_keysWithIncludes hr' sources p map point
  refine Prod.ext ?tracker ?keys
  case keys => exact h.keysWithIncludes_congr hr <| keys_keysWithIncludes hr
  case tracker =>
    have hnone : (t.traverse sources p).files.filterMap
        ((t.keysWithIncludes sources p map point).1.addition? sources) = [] :=
      List.filterMap_eq_nil_iff.mpr fun f hf => addition?_keysWithIncludes hr hf
    have hentries := entries_keysWithIncludes hr' sources p map point
    rw [h.traverse_eq, hnone, List.append_nil] at hentries
    exact eq_of_entries h'.config h'.resolver hentries

-- Asking makes no difference to what is included, nor to the keys of the scripts that were tracked
-- before. A question that is asked again has the same answer and leaves the tracker as it is, whether
-- or not the script that it is about is tracked.
theorem Reached.askAll_transparent (h : t.Reached workingDir) (hw : workingDir.isAbsolute)
    (hroot : ∀ root ∈ t.config.workspaceRoot, root.isAbsolute)
    (hdirs : ∀ dir ∈ t.config.includePaths, dir.isAbsolute) (sources : Sources)
    (questions : List Question) :
    (∀ p, (t.askAll sources questions).traverse sources p = t.traverse sources p) ∧
    (∀ p, t.isTracked p → ∀ map point,
      (t.askAll sources questions).keys p map point = t.keys p map point ∧
      ((t.askAll sources questions).keysWithIncludes sources p map point).2 =
        (t.keysWithIncludes sources p map point).2) ∧
    ∀ p map point,
      (t.keysWithIncludes sources p map point).1.keysWithIncludes sources p map point =
        t.keysWithIncludes sources p map point := by
  have hr := h.isAbsolute hw hroot hdirs
  have hext := extends_askAll hr sources questions
  refine ⟨hext.traverse_eq, ?tracked, keysWithIncludes_again hr sources⟩
  case tracked =>
    intro p hp map point
    exact ⟨hext.keys_eq hp, hext.keysWithIncludes_congr hr <| hext.keys_eq hp⟩

-- A script that is edited in the workspace `/ws` and a file that it includes. Asking about the script
-- tracks the file, after which the script has the same includes and the same keys as before.
theorem askAll_edited :
    let main := Path.ofText "main.au3"
    let t := (create (.ofText "/") { workspaceRoot := some (.ofText "/ws") }).update main
      "#include \"lib.au3\"\n$m.a = 1\n"
    let sources := (MemoryFiles.write {} (.ofText "/ws/lib.au3") "$m.b = 2\n").sources
    let t' := t.askAll sources [⟨main, "$m", .everywhere⟩]
    t.isTracked main ∧ t.scripts.entries.map (·.1.text) = ["/ws/main.au3"] ∧
    t'.scripts.entries.map (·.1.text) = ["/ws/main.au3", "/ws/lib.au3"] ∧
    t'.traverse sources main = t.traverse sources main ∧
    (t'.keysWithIncludes sources main "$m" .everywhere).2 =
      (t.keysWithIncludes sources main "$m" .everywhere).2 := by
  intro main t sources t'
  have hreach : t.Reached (.ofText "/") := .update _ _ <| .create _
  have htracked : t.isTracked main := by decide +kernel
  have ⟨htraverse, hkeys, _⟩ := hreach.askAll_transparent (by decide +kernel) (by decide +kernel)
    (by decide +kernel) sources [⟨main, "$m", .everywhere⟩]
  refine ⟨htracked, by decide +kernel, ?_, htraverse main, (hkeys main htracked "$m" .everywhere).right⟩
  have hentries : t'.scripts.entries = _ := entries_keysWithIncludes
    (hreach.isAbsolute (by decide +kernel) (by decide +kernel) (by decide +kernel)) sources main "$m"
    .everywhere
  rw [hentries, traverse, Resolver.traverse_eq_advance 5 (by decide +kernel)]
  decide +kernel

end ScriptMaps.Tracker
