import ScriptMaps.Proofs.Tracker.Saved

namespace ScriptMaps.Tracker

-- What a tracker can be told and asked. A question about includes comes with the files that there are at
-- that time.
inductive Request
  | update (p : Path) (text : String)
  | remove (p : Path)
  | clear
  | reconfigure (config : Config)
  | keys (p : Path) (map : String) (point : QueryPoint)
  | keysWithIncludes (sources : Sources) (p : Path) (map : String) (point : QueryPoint)
  | traverse (sources : Sources) (p : Path)

-- What can happen to the scripts that are tracked.
inductive Change
  | updated (key : Path) (text : String)
  | removed (key : Path)
  | cleared

namespace Change

def apply (scripts : PathTable Script) : Change → PathTable Script
  | updated key text => scripts.insert key (.ofText text)
  | removed key      => scripts.erase key
  | cleared          => {}

-- Whether a change is one of the script at `key`.
def concerns (key : Path) : Change → Bool
  | updated p _ => p == key
  | removed p   => p == key
  | cleared     => true

-- The script that a change leaves behind.
def script? : Change → Option Script
  | updated _ text      => some (.ofText text)
  | removed _ | cleared => none

variable {scripts : PathTable Script} {key : Path}

theorem find?_apply_of_concerns {c : Change} (h : c.concerns key) :
    (c.apply scripts).find? key = c.script? := by
  cases c
  case updated p text => rw [apply, ← PathTable.find?_congr h, PathTable.find?_insert_self, script?]
  case removed p      => exact PathTable.find?_erase_self h
  case cleared        => rfl

theorem find?_apply_of_not_concerns {c : Change} (h : ¬c.concerns key) :
    (c.apply scripts).find? key = scripts.find? key := by
  cases c
  case updated p text => exact PathTable.find?_insert_of_ne h
  case removed p      => exact PathTable.find?_erase_of_ne h
  case cleared        => simp [concerns] at h

-- Of all changes of a script the last one counts.
theorem find?_foldl_apply (changes : List Change) :
    (changes.foldl apply scripts).find? key =
      ((changes.filter (·.concerns key)).getLast?.map script?).getD (scripts.find? key) := by
  induction changes using List.reverseRecOn
  case nil => rfl
  case append_singleton changes c hi =>
    rw [List.foldl_concat, List.filter_append]
    by_cases h : c.concerns key
    case pos => simp [find?_apply_of_concerns h, h]
    case neg => simp [find?_apply_of_not_concerns h, h, hi]

end Change

variable {sources : Sources} {t : Tracker}

def handle (t : Tracker) : Request → Tracker
  | .update p text                        => t.update p text
  | .remove p                             => t.remove p
  | .clear                                => t.clear
  | .reconfigure config                   => t.reconfigure config
  | .keysWithIncludes sources p map point => (t.keysWithIncludes sources p map point).1
  | .keys .. | .traverse ..               => t

def serve (t : Tracker) (requests : List Request) : Tracker :=
  requests.foldl handle t

-- The updates on the way through included files: a file that is not tracked yet is, if it can be read.
def updatesOf (sources : Sources) : List Path → Tracker → List Change
  | [], _ => []
  | file :: files, t =>
    if t.isTracked file then updatesOf sources files t
    else match sources.read file with
      | .ok text => .updated (t.key file) text :: updatesOf sources files (t.update file text)
      | .error _ => updatesOf sources files t

-- What a request changes.
def changes (t : Tracker) : Request → List Change
  | .update p text                           => [.updated (t.key p) text]
  | .remove p                                => [.removed (t.key p)]
  | .clear                                   => [.cleared]
  | .keysWithIncludes sources p _ _          => updatesOf sources (t.traverse sources p).files t
  | .reconfigure _ | .keys .. | .traverse .. => []

-- What requests change, one after the other.
def history (t : Tracker) : List Request → List Change
  | []                  => []
  | request :: requests => t.changes request ++ (t.handle request).history requests

-- Whether a request is to update or remove the script at `key` by name.
def Request.rewrites (t : Tracker) (key : Path) : Request → Bool
  | .update p _ => t.key p == key
  | .remove p   => t.key p == key
  | .clear      => true
  | _           => false

theorem scripts_collect (map : String) (files : List Path) (found : MapKeys) :
    (collect sources map files (t, found)).1.scripts =
      (updatesOf sources files t).foldl Change.apply t.scripts := by
  induction files generalizing t found
  case nil => rfl
  case cons file files hi =>
    rw [collect, updatesOf, track?]
    by_cases ht : t.isTracked file
    case pos => simp only [ht, ↓reduceIte, hi]
    case neg =>
      cases sources.read file
      case error e => simp only [ht, Bool.false_eq_true, ↓reduceIte, hi]
      case ok text =>
        simp only [ht, Bool.false_eq_true, ↓reduceIte, hi, List.foldl_cons]
        rfl

theorem scripts_handle (t : Tracker) (request : Request) :
    (t.handle request).scripts = (t.changes request).foldl Change.apply t.scripts := by
  cases request
  case reconfigure config => exact scripts_reconfigure t config
  case keysWithIncludes   => exact scripts_collect ..
  all_goals rfl

theorem scripts_serve (t : Tracker) (requests : List Request) :
    (t.serve requests).scripts = (t.history requests).foldl Change.apply t.scripts := by
  induction requests generalizing t
  case nil => rfl
  case cons request requests hi =>
    rw [history, List.foldl_append, ← scripts_handle, ← hi]
    rfl

theorem Reached.serve {workingDir : Path} (h : t.Reached workingDir) (requests : List Request) :
    (t.serve requests).Reached workingDir := by
  induction requests generalizing t
  case nil => exact h
  case cons request requests hi =>
    apply hi
    cases request
    case update p text                        => exact .update p text h
    case remove p                             => exact .remove p h
    case clear                                => exact .clear h
    case reconfigure config                   => exact .reconfigure config h
    case keysWithIncludes sources p map point => exact .query sources p map point h
    case keys | traverse                      => exact h

-- On the way through included files only scripts are updated that have not been tracked, to the text that
-- is read. An update leaves fewer of them.
theorem of_mem_updatesOf {files : List Path} {c : Change} (h : c ∈ updatesOf sources files t) :
    ∃ file ∈ files, ∃ text, c = .updated (t.key file) text ∧ sources.read file = .ok text ∧
      t.scripts.find? (t.key file) = none := by
  induction files generalizing t
  case nil => simp [updatesOf] at h
  case cons file files hi =>
    have later {t : Tracker} (h : c ∈ updatesOf sources files t) :
        ∃ f ∈ file :: files, ∃ text, c = .updated (t.key f) text ∧ sources.read f = .ok text ∧
          t.scripts.find? (t.key f) = none := by
      obtain ⟨f, hf, hc⟩ := hi h
      exact ⟨f, .tail _ hf, hc⟩
    rw [updatesOf] at h
    split at h
    case isTrue => exact later h
    case isFalse ht =>
      split at h
      case h_2 => exact later h
      case h_1 text hr =>
        cases h
        case head   => exact ⟨file, .head _, text, rfl, hr, by simpa [isTracked, script?] using ht⟩
        case tail h =>
          obtain ⟨f, hf, text', hc, hr', hn⟩ := later h
          refine ⟨f, hf, text', hc, hr', ?_⟩
          have hne : ¬t.key file == t.key f := by
            intro he
            have hs := PathTable.find?_congr (t := (t.update file text).scripts) he
            rw [update, PathTable.find?_insert_self] at hs
            exact Option.some_ne_none _ <| hs.trans hn
          exact (PathTable.find?_insert_of_ne hne).symm.trans hn

-- A request that is not about a tracked script by name does not concern it.
theorem not_concerns_of_mem_changes {key : Path} {script : Script} {request : Request} {c : Change}
    (hs : t.scripts.find? key = some script) (hr : ¬request.rewrites t key)
    (h : c ∈ t.changes request) : ¬c.concerns key := by
  cases request
  case update p text => exact List.mem_singleton.mp h ▸ hr
  case remove p      => exact List.mem_singleton.mp h ▸ hr
  case clear         => exact absurd rfl hr
  case keysWithIncludes =>
    have ⟨file, _, text, hc, _, hn⟩ := of_mem_updatesOf h
    intro hk
    rw [hc, Change.concerns] at hk
    rw [PathTable.find?_congr hk, hs] at hn
    cases hn
  all_goals cases h

theorem find?_handle {key : Path} {script : Script} {request : Request}
    (hs : t.scripts.find? key = some script) (hr : ¬request.rewrites t key) :
    (t.handle request).scripts.find? key = some script := by
  have hnone : (t.changes request).filter (·.concerns key) = [] :=
    List.filter_eq_nil_iff.mpr fun _ => not_concerns_of_mem_changes hs hr
  rw [scripts_handle, Change.find?_foldl_apply, hnone]
  exact hs

-- Whatever a new tracker has been told and asked, includes are resolved by the current configuration, the
-- depth is positive, and scripts are tracked at paths that are their own identity. A further request
-- leaves every script as it is, unless it is to update or remove that very script. So the script at a path
-- is the one of the last update since it was last removed.
theorem serve_tracks_last_update (workingDir : Path) (config : Config) (requests : List Request) :
    let t := (create workingDir config).serve requests
    t.resolver = Resolver.ofConfig workingDir t.config ∧ 1 ≤ t.config.maxDepth ∧
    (∀ key ∈ t.tracked, key.identity = key) ∧
    (∀ request key script, t.scripts.find? key = some script → ¬request.rewrites t key →
      (t.handle request).scripts.find? key = some script) ∧
    (∀ sources p map point, ∀ c ∈ t.changes (.keysWithIncludes sources p map point),
      ∃ file ∈ (t.traverse sources p).files, ∃ text, c = .updated (t.key file) text ∧
        sources.read file = .ok text ∧ t.scripts.find? (t.key file) = none) ∧
    ∀ key, t.scripts.find? key =
      (((create workingDir config).history requests).filter (·.concerns key)).getLast?.bind
        Change.script? := by
  intro t
  have hr : t.Reached workingDir := (Reached.create config).serve requests
  refine ⟨hr.resolver_eq, Nat.pos_of_ne_zero hr.maxDepth_ne_zero, fun _ => hr.identity_of_mem_tracked,
    fun _ _ _ => find?_handle, fun _ _ _ _ _ => of_mem_updatesOf, ?last⟩
  intro key
  rw [scripts_serve, Change.find?_foldl_apply]
  cases ((create workingDir config).history requests).filter (·.concerns key) |>.getLast? <;> rfl

-- A library that has been read for a question stays as it was then. The file is changed, and the question
-- is asked again.
theorem tracks_last_update_read :
    let main := Path.ofText "main.au3"
    let lib := Path.ofText "/ws/lib.au3"
    let ask text := Request.keysWithIncludes (MemoryFiles.write {} lib text).sources main "$m" .everywhere
    let requests := [.update main "#include \"lib.au3\"\n", ask "$m.old = 1\n"]
    let config : Config := { workspaceRoot := some (.ofText "/ws"), maxDepth := 0 }
    let t := (create (.ofText "/") config).serve requests
    1 ≤ t.config.maxDepth ∧ (t.scripts.find? lib).map (·.source) = some "$m.old = 1\n" ∧
      ¬(ask "$m.new = 1\n").rewrites t lib ∧
      ((t.handle <| ask "$m.new = 1\n").scripts.find? lib).map (·.source) = some "$m.old = 1\n" := by
  intro main lib ask requests config t
  obtain ⟨_, hdepth, _, hkeep, _⟩ := serve_tracks_last_update (.ofText "/") config requests
  have ht : t = ((create (.ofText "/") config).update main "#include \"lib.au3\"\n").handle
      (ask "$m.old = 1\n") := rfl
  have htext : (t.scripts.find? lib).map (·.source) = some "$m.old = 1\n" := by
    rw [ht, handle, keysWithIncludes, traverse, Resolver.traverse_eq_advance 3 (by decide +kernel)]
    decide +kernel
  obtain ⟨script, hs, hsource⟩ := Option.map_eq_some_iff.mp htext
  have hr : ¬(ask "$m.new = 1\n").rewrites t lib := Bool.false_ne_true
  refine ⟨hdepth, htext, hr, ?_⟩
  rw [hkeep _ lib script hs hr, Option.map_some, hsource]

end ScriptMaps.Tracker
