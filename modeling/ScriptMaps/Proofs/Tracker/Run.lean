import ScriptMaps.Tracker

namespace ScriptMaps.Tracker

-- The states that a tracker started in `workingDir` can come to. The sources may be others each time.
inductive Reached (workingDir : Path) : Tracker → Prop
  | create (config : Config) : Reached workingDir (create workingDir config)
  | update {t} (p : Path) (text : String) : Reached workingDir t → Reached workingDir (t.update p text)
  | remove {t} (p : Path) : Reached workingDir t → Reached workingDir (t.remove p)
  | clear {t} : Reached workingDir t → Reached workingDir t.clear
  | reconfigure {t} (config : Config) :
    Reached workingDir t → Reached workingDir (t.reconfigure config)
  | query {t} (sources : Sources) (p : Path) (map : String) (point : QueryPoint) :
    Reached workingDir t → Reached workingDir (t.keysWithIncludes sources p map point).1

variable {workingDir : Path} {sources : Sources} {t t' : Tracker} {file : Path}

theorem track?_cases (h : t.track? sources file = some t') :
    t' = t ∨ ∃ text, sources.read file = .ok text ∧ t' = t.update file text := by
  rw [track?] at h
  split at h
  case isTrue => exact .inl <| by simpa using h.symm
  case isFalse =>
    split at h
    case h_1 text ht => exact .inr ⟨text, ht, by simpa using h.symm⟩
    case h_2         => simp at h

theorem track?_preserves (h : t.track? sources file = some t') :
    t'.config = t.config ∧ t'.resolver = t.resolver := by
  obtain rfl | ⟨_, _, rfl⟩ := track?_cases h
  case inl => exact ⟨rfl, rfl⟩
  case inr => exact ⟨rfl, rfl⟩

-- Collecting keys does nothing to the tracker but update it.
theorem collect_of_update {Q : Tracker → Prop}
    (hu : ∀ {t : Tracker} (p : Path) (text : String), Q t → Q (t.update p text)) (h : Q t)
    (sources : Sources) (map : String) (files : List Path) (found : MapKeys) :
    Q (collect sources map files (t, found)).1 := by
  induction files generalizing t found
  case nil => exact h
  case cons file files hi =>
    rw [collect]
    split
    case h_2 => exact hi h found
    case h_1 t' ht =>
      obtain rfl | ⟨text, _, rfl⟩ := track?_cases ht
      case inl => exact hi h _
      case inr => exact hi (hu file text h) _

theorem collect_preserves (sources : Sources) (t : Tracker) (map : String) (files : List Path)
    (found : MapKeys) :
    (collect sources map files (t, found)).1.config = t.config ∧
      (collect sources map files (t, found)).1.resolver = t.resolver :=
  collect_of_update (Q := fun t' => t'.config = t.config ∧ t'.resolver = t.resolver)
    (fun _ _ h => h) ⟨rfl, rfl⟩ sources map files found

theorem Reached.resolver_eq (h : t.Reached workingDir) :
    t.resolver = Resolver.ofConfig workingDir t.config := by
  induction h
  case create => rfl
  case update hi | remove hi | clear hi => exact hi
  case query t sources p map point _ hi =>
    have ⟨hc, hr⟩ := collect_preserves sources t map (t.traverse sources p).files
      (t.keys p map point)
    rw [keysWithIncludes, hc, hr, hi]
  case reconfigure t config _ hi =>
    simp only [Tracker.reconfigure]
    split
    case isTrue  => simp [hi, Resolver.ofConfig]
    case isFalse => exact hi

end ScriptMaps.Tracker
