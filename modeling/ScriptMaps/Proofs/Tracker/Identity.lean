import ScriptMaps.Proofs.Path.Join
import ScriptMaps.Proofs.Tracker.Includes

-- A script tracked by name and the same file that an include leads to are one entry where the tracker's path
-- for the file is the file's identity.

namespace ScriptMaps

-- Settings that do not leave it to the working directory where a file is looked for.
structure Config.IsAbsolute (c : Config) : Prop where
  workspaceRoot : ∀ root ∈ c.workspaceRoot, root.isAbsolute
  includePaths  : ∀ dir ∈ c.includePaths, dir.isAbsolute

theorem Config.IsAbsolute.withPositiveDepth {c : Config} (h : c.IsAbsolute) (fallback : Nat) :
    (c.withPositiveDepth fallback).IsAbsolute := by
  rw [Config.withPositiveDepth]
  split
  case isTrue  => exact ⟨h.workspaceRoot, h.includePaths⟩
  case isFalse => exact h

theorem PathTable.of_mem_insert {α : Type} {t : PathTable α} {p : Path} {a : α} {e : Path × α}
    (h : e ∈ (t.insert p a).entries) : e.1 = p ∨ ∃ e' ∈ t.entries, e.1 = e'.1 := by
  simp only [insert] at h
  split at h
  case isTrue =>
    obtain ⟨e', he', rfl⟩ := List.mem_map.mp h
    exact .inr ⟨e', he', by split <;> rfl⟩
  case isFalse =>
    cases List.mem_append.mp h
    case inl h => exact .inr ⟨e, h, rfl⟩
    case inr h => exact .inl <| List.mem_singleton.mp h ▸ rfl

namespace Tracker

-- The states that a tracker can come to under configurations of a kind.
inductive ReachedWith (admits : Config → Prop) (workingDir : Path) : Tracker → Prop
  | create {config} (h : admits config) : ReachedWith admits workingDir (create workingDir config)
  | update {t} (p : Path) (text : String) :
    ReachedWith admits workingDir t → ReachedWith admits workingDir (t.update p text)
  | remove {t} (p : Path) :
    ReachedWith admits workingDir t → ReachedWith admits workingDir (t.remove p)
  | clear {t} : ReachedWith admits workingDir t → ReachedWith admits workingDir t.clear
  | reconfigure {t config} (h : admits config) :
    ReachedWith admits workingDir t → ReachedWith admits workingDir (t.reconfigure config)
  | query {t} (sources : Sources) (p : Path) (map : String) (point : QueryPoint) :
    ReachedWith admits workingDir t →
      ReachedWith admits workingDir (t.keysWithIncludes sources p map point).1

-- All paths at which scripts are tracked have a property.
def AllTracked (P : Path → Prop) (t : Tracker) : Prop :=
  ∀ e ∈ t.scripts.entries, P e.1

variable {admits : Config → Prop} {workingDir : Path} {sources : Sources} {t : Tracker} {f p : Path}

theorem ReachedWith.reached (h : t.ReachedWith admits workingDir) : t.Reached workingDir := by
  induction h
  case create config _                => exact .create config
  case update p text _ hi             => exact .update p text hi
  case remove p _ hi                  => exact .remove p hi
  case clear hi                       => exact .clear hi
  case reconfigure config _ _ hi      => exact .reconfigure config hi
  case query sources p map point _ hi => exact .query sources p map point hi

theorem Reached.with_any (h : t.Reached workingDir) : t.ReachedWith (fun _ => True) workingDir := by
  induction h
  case create                         => exact .create trivial
  case update p text _ hi             => exact .update p text hi
  case remove p _ hi                  => exact .remove p hi
  case clear hi                       => exact .clear hi
  case reconfigure hi                 => exact .reconfigure trivial hi
  case query sources p map point _ hi => exact .query sources p map point hi

theorem mem_tracked : f ∈ t.tracked ↔ ∃ e ∈ t.scripts.entries, e.1 = f := by
  simp [tracked, PathTable.paths]

theorem mem_tracked_iff_text : f ∈ t.tracked ↔ f.text ∈ t.scripts.entries.map (·.1.text) := by
  simp only [mem_tracked, List.mem_map, Path.ext_iff]

theorem scripts_reconfigure (t : Tracker) (config : Config) :
    (t.reconfigure config).scripts = t.scripts := by
  simp only [reconfigure]
  split <;> rfl

theorem AllTracked.update {P : Path → Prop} (h : t.AllTracked P) (hp : P (t.key p)) (text : String) :
    (t.update p text).AllTracked P := by
  intro e he
  obtain hk | ⟨e', he', hk⟩ := PathTable.of_mem_insert he
  case inl => exact hk ▸ hp
  case inr => exact hk ▸ h e' he'

theorem AllTracked.collect {P : Path → Prop} (h : t.AllTracked P) (hp : ∀ p, P (t.key p))
    (sources : Sources) (map : String) (files : List Path) (found : MapKeys) :
    (collect sources map files (t, found)).1.AllTracked P :=
  -- An update leaves the paths as they are that the tracker makes.
  have h := collect_of_update (Q := fun t => t.AllTracked P ∧ ∀ p, P (t.key p))
    (fun p text h => ⟨h.left.update (h.right p) text, h.right⟩) ⟨h, hp⟩ sources map files found
  h.left

-- What the paths have that a tracker makes all along, the paths have that scripts are tracked at.
theorem ReachedWith.allTracked {P : Path → Prop} (h : t.ReachedWith admits workingDir)
    (hp : ∀ {t : Tracker}, t.ReachedWith admits workingDir → ∀ p, P (t.key p)) : t.AllTracked P := by
  induction h
  case create                          => simp [AllTracked, Tracker.create]
  case update p text ht hi             => exact hi.update (hp ht p) text
  case remove p _ hi                   => exact fun e he => hi e (List.mem_filter.mp he).left
  case clear                           => simp [AllTracked, Tracker.clear]
  case reconfigure t config _ _ hi     => rwa [AllTracked, scripts_reconfigure]
  case query sources p map point ht hi => exact hi.collect (hp ht) sources map _ _

theorem Reached.identity_of_mem_tracked (h : t.Reached workingDir) (hf : f ∈ t.tracked) :
    f.identity = f := by
  have ha : t.AllTracked fun p => p.identity = p :=
    h.with_any.allTracked fun _ p => Path.identity_identity _
  obtain ⟨e, he, rfl⟩ := mem_tracked.mp hf
  exact ha e he

namespace ReachedWith

-- What the configuration has at the start and keeps when another one takes its place, it always has.
theorem config_of {P : Config → Prop} (h : t.ReachedWith admits workingDir)
    (hc : ∀ {config}, admits config → P (config.withPositiveDepth defaultDepth))
    (hr : ∀ {config current : Config}, admits config → P current →
      P (config.withPositiveDepth current.maxDepth)) : P t.config := by
  induction h
  case create h => exact hc h
  case update hi | remove hi | clear hi => exact hi
  case query t sources p map point _ hi =>
    rw [keysWithIncludes, (collect_preserves sources t map _ _).left]
    exact hi
  case reconfigure t config h _ hi =>
    simp only [Tracker.reconfigure]
    split
    case isTrue  => exact hr h hi
    case isFalse => exact hi

theorem isAbsolute_config (h : t.ReachedWith Config.IsAbsolute workingDir) : t.config.IsAbsolute :=
  h.config_of (fun h => h.withPositiveDepth _) (fun h _ => h.withPositiveDepth _)

theorem isAbsolute_resolver (h : t.ReachedWith Config.IsAbsolute workingDir)
    (hw : workingDir.isAbsolute) : t.resolver.IsAbsolute :=
  h.reached.isAbsolute hw h.isAbsolute_config.workspaceRoot h.isAbsolute_config.includePaths

theorem isAbsolute_of_mem_tracked (h : t.ReachedWith Config.IsAbsolute workingDir)
    (hw : workingDir.isAbsolute) (hf : f ∈ t.tracked) : f.isAbsolute := by
  have ha : t.AllTracked fun p => p.isAbsolute :=
    h.allTracked fun ht p => Path.isAbsolute_identity <| (ht.isAbsolute_resolver hw).absolutize p
  obtain ⟨e, he, rfl⟩ := mem_tracked.mp hf
  exact ha e he

end ReachedWith

-- Only a workspace root can lead nowhere.
theorem Reached.base_normalize?_eq_none_iff (h : t.Reached workingDir) (hw : workingDir.isAbsolute) :
    (t.resolver.workspaceRoot.getD t.resolver.workingDir).normalize? = none ↔
      ∃ root ∈ t.config.workspaceRoot, root.normalize? = none := by
  obtain ⟨q, hq, _⟩ := Path.normalize?_of_isAbsolute hw
  rw [h.resolver_eq]
  cases hr : t.config.workspaceRoot <;> simp [Resolver.ofConfig, hr, hq]

theorem key_of_isAbsolute (hf : f.isAbsolute) : t.key f = f.identity := by
  rw [key_eq_absolutize, Resolver.absolutize, Path.absolutize_of_isAbsolute hf]

theorem key_eq_identity_iff (hf : f.IsNormal) :
    t.key f = f.identity ↔
      f.isAbsolute ∨ (t.resolver.workspaceRoot.getD t.resolver.workingDir).normalize? = none := by
  rw [hf.identity_eq, key_eq_absolutize, Resolver.absolutize, Path.absolutize_eq_self_iff hf]

theorem isTracked_of_key_eq (h : t.key f = f.identity) :
    t.isTracked f = t.scripts.contains f.identity := by
  rw [isTracked, script?, h, PathTable.contains]

theorem keys_of_key_eq (h : t.key f = f.identity) (hf : t.isTracked f) (map : String) :
    t.keys f map .everywhere = t.share sources map f := by
  obtain ⟨script, hs⟩ := Option.isSome_iff_exists.mp hf
  have hs' : t.scripts.find? f.identity = some script := h ▸ hs
  simp [keys, hs, share, Sources.under, hs']

-- The tracker's path for a tracked script or an included file is the identity of the file exactly if
-- the path is absolute or the workspace root leads nowhere. Where it is, the tracker and the sources
-- agree on what is tracked, a tracked path counts as tracked, and the keys of the tracked text are what
-- an included file contributes. With absolute settings all along, all these paths are absolute.
theorem Reached.key_eq_identity_iff_isAbsolute (h : t.Reached workingDir)
    (hw : workingDir.isAbsolute) (sources : Sources) :
    (∀ f, f ∈ t.tracked ∧ f.normalize? ≠ none ∨ (∃ p, f ∈ (t.traverse sources p).files) →
      (t.key f = f.identity ↔
        f.isAbsolute ∨ ∃ root ∈ t.config.workspaceRoot, root.normalize? = none)) ∧
    (∀ f, t.key f = f.identity →
      t.isTracked f = t.scripts.contains f.identity ∧ (f ∈ t.tracked → t.isTracked f) ∧
      (t.isTracked f → ∀ map, t.keys f map .everywhere = t.share sources map f)) ∧
    (t.ReachedWith Config.IsAbsolute workingDir →
      ∀ f, f ∈ t.tracked ∨ (∃ p, f ∈ (t.traverse sources p).files) →
        f.isAbsolute ∧ t.key f = f.identity) := by
  refine ⟨?exact, ?shared, ?absolute⟩
  case exact =>
    intro f hf
    have hn : f.IsNormal := by
      obtain ⟨hf, hne⟩ | ⟨p, hf⟩ := hf
      case inl => exact Path.isNormal_of_identity_eq (h.identity_of_mem_tracked hf) hne
      case inr => exact Resolver.isNormal_of_mem_files hf
    rw [key_eq_identity_iff hn, h.base_normalize?_eq_none_iff hw]
  case shared =>
    intro f hk
    refine ⟨isTracked_of_key_eq hk, ?_, keys_of_key_eq hk⟩
    intro hf
    obtain ⟨e, he, rfl⟩ := mem_tracked.mp hf
    rw [isTracked_of_key_eq hk, h.identity_of_mem_tracked hf]
    exact PathTable.contains_of_mem he
  case absolute =>
    intro hr f hf
    have ha : f.isAbsolute := by
      obtain hf | ⟨p, hf⟩ := hf
      case inl => exact hr.isAbsolute_of_mem_tracked hw hf
      case inr => exact (hr.isAbsolute_resolver hw).files hf
    exact ⟨ha, key_of_isAbsolute ha⟩

-- A script that is edited in place of a file in the workspace `/ws`.
theorem key_eq_identity_edited :
    let lib := Path.ofText "/ws/lib.au3"
    let t := (create (.ofText "/") { workspaceRoot := some (.ofText "/ws") }).update (.ofText "lib.au3")
      "$m.new = 1\n"
    let sources := (MemoryFiles.write {} lib "$m.old = 1\n").sources
    lib ∈ t.tracked ∧ t.key lib = lib.identity ∧ t.isTracked lib ∧
      (t.share sources "$m" lib).directKeys = ["new"] := by
  intro lib t sources
  have hr : t.ReachedWith Config.IsAbsolute (.ofText "/") :=
    .update _ _ <| .create ⟨by decide +kernel, by decide +kernel⟩
  have hm : lib ∈ t.tracked := by
    rw [mem_tracked_iff_text]
    decide +kernel
  have ⟨_, hshared, habsolute⟩ :=
    hr.reached.key_eq_identity_iff_isAbsolute (by decide +kernel) sources
  have ⟨_, hk⟩ := habsolute hr lib (.inl hm)
  have ⟨_, htracked, hkeys⟩ := hshared lib hk
  refine ⟨hm, hk, htracked hm, ?_⟩
  rw [← hkeys (htracked hm)]
  decide +kernel

-- The workspace root `w` is put before `w/b` once more. The script that is edited there is tracked, but
-- not at the path it is listed with, and a file in its place is read for the directive that leads to it.
theorem relative_root_splits_entry :
    let lib := Path.ofText "w/b"
    let t := ((create (.ofText "/") { workspaceRoot := some (.ofText "w") }).update (.ofText "a")
      "#include \"b\"\n").update (.ofText "b") "$m.new = 1\n"
    let sources := (MemoryFiles.write {} lib "$m.old = 1\n").sources
    lib ∈ t.tracked ∧ lib ∈ (t.traverse sources (.ofText "a")).files ∧ t.key lib ≠ lib.identity ∧
      ¬t.isTracked lib ∧ t.scripts.contains lib.identity ∧
      (t.keysWithIncludes sources (.ofText "a") "$m" .everywhere).2.directKeys = ["old"] := by
  intro lib t sources
  refine ⟨?tracked, ?included, ?key, by decide +kernel, by decide +kernel, ?keys⟩
  case tracked =>
    rw [mem_tracked_iff_text]
    decide +kernel
  case included =>
    rw [Traversal.mem_files_iff_text, traverse, Resolver.traverse_eq_advance 5 (by decide +kernel)]
    decide +kernel
  case key =>
    refine mt (congrArg Path.text) ?_
    decide +kernel
  case keys =>
    rw [keysWithIncludes, traverse, Resolver.traverse_eq_advance 5 (by decide +kernel)]
    decide +kernel

end Tracker

end ScriptMaps
