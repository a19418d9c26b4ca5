import ScriptMaps.Command.Query
import ScriptMaps.Proofs.Disk.Node
import ScriptMaps.Proofs.Tracker.Includes

namespace ScriptMaps

-- The script that a question tracks before it is answered.
def Query.tracked? : Query → Option Path
  | .keys file _ _ _ => some file
  | .includes file   => some file
  | .maps _          => none

@[simp]
theorem Config.workspaceRoot_withPositiveDepth (config : Config) (fallback : Nat) :
    (config.withPositiveDepth fallback).workspaceRoot = config.workspaceRoot := by
  rw [withPositiveDepth]
  split <;> rfl

-- The first place for a relative directive is next to the including file.
theorem Resolver.head?_places {r : Resolver} {file : Path} {directive : Include} (hf : file.isAbsolute)
    (hk : directive.kind = .relative) (ht : ¬(Path.ofWritten directive.path).isAbsolute) :
    (r.places file directive).head? =
      (file.directory.join (.ofWritten directive.path)).normalize? := by
  have ⟨place, hp, _⟩ := Path.normalize?_of_isAbsolute <|
    Path.isAbsolute_join (q := .ofWritten directive.path) <| Path.isAbsolute_directory hf
  simp [places, candidates, ht, hk, hp, List.eraseDups_cons]

namespace QueryCommand

variable {env : Environment} {c : QueryCommand} {options : Options} {config : Config} {file root : Path}
  {t : Tracker} {output : String}

-- The workspace root is the one that is asked for, or else that of a settings file, or else the default.
theorem workspaceRoot_of_trackingConfig {defaultRoot : Path}
    (h : options.trackingConfig env defaultRoot = .ok config) :
    ∃ root, config.workspaceRoot = some root ∧ (∀ workspace ∈ options.workspace, root = workspace) ∧
      (options.workspace = none → options.config = none → root = defaultRoot) := by
  cases hc : options.config <;> simp only [Options.trackingConfig, hc, bind, Except.bind] at h
  case none =>
    cases h
    exact ⟨_, rfl, by simp +contextual, by simp +contextual⟩
  case some p =>
    cases hr : env.readConfig p <;> simp only [hr] at h <;> cases h
    exact ⟨_, rfl, by simp +contextual, fun _ hn => nomatch hn⟩

theorem tracking_cases (h : tracking env options file = .ok t) :
    ∃ config text, options.trackingConfig env env.workingDir = .ok config ∧
      env.readScript file = .ok text ∧ t = (Tracker.create env.workingDir config).update file text := by
  rw [tracking] at h
  cases hc : options.trackingConfig env env.workingDir <;> simp only [hc, bind, Except.bind] at h
  case error => cases h
  case ok config =>
    rw [Environment.script] at h
    cases ht : env.readScript file <;> simp only [ht] at h <;> cases h
    exact ⟨config, _, rfl, rfl, rfl⟩

theorem tracking_of_answer (hq : c.query.tracked? = some file) (h : c.answer env = .ok output) :
    ∃ t, tracking env c.options file = .ok t := by
  rw [answer] at h
  split at h
  case h_3 hm => simp [hm, Query.tracked?] at hq
  all_goals
    rename_i hm
    simp only [hm, Query.tracked?, Option.some_inj] at hq
    subst hq
    cases ht : tracking env c.options _ <;> simp only [ht, bind, Except.bind] at h
    case error => cases h
    case ok t  => exact ⟨t, rfl⟩

theorem key_create_update (h : config.workspaceRoot = some root) (workingDir file : Path)
    (text : String) :
    ((Tracker.create workingDir config).update file text).key file = Path.absolutize root file := by
  simp [Tracker.key_eq_absolutize, Tracker.update, Tracker.create, Resolver.ofConfig,
    Resolver.absolutize, h]

-- An answered question tracks one script, and follows its includes from the path it is tracked by. That
-- is the path of the file that was read, and includes are looked for next to it first, if the file's
-- path is absolute or the root is the working directory, as it is by default. For a relative path that
-- does not climb, it leads to the file only then, or if the root leads nowhere.
theorem answer_tracks_as_read_iff (hw : env.workingDir.isAbsolute)
    (hq : c.query.tracked? = some file) (h : c.answer env = .ok output) :
    ∃ t root text, tracking env c.options file = .ok t ∧ t.config.workspaceRoot = some root ∧
      env.readScript file = .ok text ∧ t.scripts.entries = [(t.key file, Script.ofText text)] ∧
      (t.traverse env.sources file).root = t.key file ∧
      (∀ workspace ∈ c.options.workspace, root = workspace) ∧
      (c.options.workspace = none → c.options.config = none → root = env.workingDir) ∧
      (file.isAbsolute ∨ root.normalize? = env.workingDir.normalize? →
        t.key file = Path.absolutize env.workingDir file ∧
        ∀ directive, directive.kind = .relative → ¬(Path.ofWritten directive.path).isAbsolute →
          (t.resolver.places (t.key file) directive).head? =
            ((t.key file).directory.join (.ofWritten directive.path)).normalize?) ∧
      (¬file.isAbsolute → .up ∉ file.components →
        (Path.absolutize env.workingDir (t.key file) = Path.absolutize env.workingDir file ↔
          root.normalize? = none ∨ root.normalize? = env.workingDir.normalize?)) := by
  have ⟨t, ht⟩ := tracking_of_answer hq h
  obtain ⟨config, text, hc, htext, rfl⟩ := tracking_cases ht
  have ⟨root, hroot, hasked, hdefault⟩ := workspaceRoot_of_trackingConfig hc
  have hkey := key_create_update hroot env.workingDir file text
  refine ⟨_, root, text, ht, ?root, htext, rfl, Tracker.root_traverse .., hasked, hdefault, ?near,
    ?exact⟩
  case root => simpa [Tracker.create, Tracker.update] using hroot
  case near =>
    intro hf
    have hk : Path.absolutize root file = Path.absolutize env.workingDir file := by
      cases hf
      case inl ha => rw [Path.absolutize_of_isAbsolute ha, Path.absolutize_of_isAbsolute ha]
      case inr hr => exact Path.absolutize_congr hw hr file
    rw [hkey, hk]
    exact ⟨rfl, fun _ => Resolver.head?_places <| Path.isAbsolute_absolutize hw⟩
  case exact =>
    intro hf hu
    rw [hkey]
    exact Path.absolutize_absolutize_eq_iff hw hf hu <|
      Environment.normalize?_ne_none_of_readScript htext

-- The script `main.au3` with the file `lib.au3` that it includes, and a directory `ws`, in `/c`.
def nearby : Environment where
  workingDir := .ofText "/c"
  disk       := .directory [("c", .directory [
    ("main.au3", .file false <| .ok "#include \"lib.au3\"\n".toUTF8.toList),
    ("lib.au3", .file false <| .ok "$m.x = 1\n".toUTF8.toList),
    ("ws", .empty)])]

-- The question for the keys of a Map in `main.au3`, in a given workspace.
def keysInWorkspace (workspace : String) : QueryCommand where
  query   := .keys (.ofText "main.au3") "$m" none false
  options := { workspace := some <| .ofText workspace }

-- The working directory is the workspace under another spelling. The script is the file in `/c`, and its
-- include is looked for there.
theorem tracks_as_read_nearby :
    let file := Path.ofText "main.au3"
    let c := keysInWorkspace "/ws/../c/"
    nearby.workingDir.isAbsolute ∧ c.query.tracked? = some file ∧
      ∃ output t, c.answer nearby = .ok output ∧ tracking nearby c.options file = .ok t ∧
        (t.key file).text = "/c/main.au3" ∧
        (t.resolver.places (t.key file) ⟨.relative, "lib.au3", 0⟩).head?.map (·.text) =
          some "/c/lib.au3" := by
  intro file c
  have hw : nearby.workingDir.isAbsolute := by decide +kernel
  have ⟨output, h⟩ : ∃ output, c.answer nearby = .ok output := by
    have hok : (c.answer nearby).isOk := by decide +kernel
    cases h : c.answer nearby
    case ok output => exact ⟨output, rfl⟩
    case error     => simp [h, Except.isOk, Except.toBool] at hok
  have ⟨t, root, _, ht, _, _, _, _, hasked, _, hnear, _⟩ :=
    answer_tracks_as_read_iff hw rfl h
  have hroot : root.normalize? = nearby.workingDir.normalize? := by
    rw [hasked _ rfl, Path.normalize?_eq_iff]
    decide +kernel
  have ⟨hkey, hplaces⟩ := hnear <| .inr hroot
  refine ⟨hw, rfl, output, t, h, ht, ?key, ?place⟩
  case key =>
    rw [hkey]
    decide +kernel
  case place =>
    rw [hplaces _ rfl (by decide +kernel), hkey]
    decide +kernel

-- In the workspace `ws` the script that is read in `/c` is tracked and followed as a file in `/c/ws`, and
-- there is no place in `/c` itself at which its include is looked for.
theorem workspace_displaces_script :
    let file := Path.ofText "main.au3"
    let c := keysInWorkspace "ws"
    let tracked := tracking nearby c.options file
    (c.answer nearby).isOk ∧ (Path.absolutize nearby.workingDir file).text = "/c/main.au3" ∧
      (tracked.map fun t => (Path.absolutize nearby.workingDir (t.key file)).text).toOption =
        some "/c/ws/main.au3" ∧
      (tracked.map fun t => (t.traverse nearby.sources file).root.text).toOption =
        some "ws/main.au3" ∧
      (tracked.map fun t => (t.resolver.places (t.key file) ⟨.relative, "lib.au3", 0⟩).map
        (·.text)).toOption = some ["ws/lib.au3"] := by
  simp only [Tracker.root_traverse]
  decide +kernel

end QueryCommand

end ScriptMaps
