import ScriptMaps.Proofs.Command.Arguments
import ScriptMaps.Proofs.Json.Bounds
import ScriptMaps.Tracker

namespace ScriptMaps
open Text

namespace Config

-- The value of a setting in a part of the settings, if there are any.
def setting? (settings : Option Json) (part name : String) : Option Json :=
  (settings.bind (·.field? part)).bind (·.field? name)

-- A depth is a positive integer of at most 64 bits, as an option gives it.
def depthOf? : Json → Option Nat
  | .number (.natural n) => if 0 < n ∧ n ≤ Options.depthLimit then some n else none
  | _                    => none

-- A path is a string that is not empty and holds no NUL character.
def pathOf? : Json → Option Path
  | .string text => if text = "" ∨ '\x00' ∈ text.toList then none else some (.ofText text)
  | _            => none

-- Paths are the items of an array that are paths.
def pathsOf : Json → List Path
  | .array items => items.filterMap pathOf?
  | _            => []

theorem pos_of_depthOf? {value : Json} {n : Nat} (h : depthOf? value = some n) : 0 < n := by
  rw [depthOf?.eq_def] at h
  split at h
  case h_1 =>
    split at h <;> cases h
    case isTrue.refl hn => exact hn.left
  case h_2 => cases h

theorem settingPath?_eq (value : Json) : settingPath? value = pathOf? value := by
  cases value
  case string text => simp [settingPath?, pathOf?, Json.string?]
  all_goals rfl

theorem settingIncludePaths_eq (part : Option Json) :
    settingIncludePaths part = ((part.bind (·.field? "includePaths")).map pathsOf).getD [] := by
  rw [settingIncludePaths, show settingPath? = pathOf? from funext settingPath?_eq]
  cases part.bind (·.field? "includePaths")
  case none       => rfl
  case some value => cases value <;> rfl

theorem settingWorkspace?_eq (part : Option Json) :
    settingWorkspace? part = (part.bind (·.field? "workspaceRoot")).bind pathOf? := by
  rw [settingWorkspace?, show settingPath? = pathOf? from funext settingPath?_eq]

theorem settingDepth?_eq {part : Option Json} (h : ∀ value ∈ part, value.Bounded) :
    settingDepth? part = (part.bind (·.field? "maxIncludeDepth")).bind depthOf? := by
  rw [settingDepth?]
  cases hv : part.bind (·.field? "maxIncludeDepth")
  case none       => rfl
  case some value =>
    have ⟨fields, hp, hf⟩ := Option.bind_eq_some_iff.mp hv
    have hb : value.Bounded := (h fields hp).field? hf
    cases hb
    case natural n hn =>
      have hpos : (0 < n ∧ n ≤ Options.depthLimit) ↔ 0 < n := and_iff_left hn
      simp only [Json.natural?, depthOf?, Option.bind_some, Option.filter, hpos, decide_eq_true_eq]
    all_goals rfl

-- Settings without either section say as little as sections without settings.
theorem getD_ofSettings? (settings : Json) :
    (ofSettings? settings).getD {} =
      { workspaceRoot := settingWorkspace? (settings.field? "autoit")
        includePaths  := settingIncludePaths (settings.field? "autoit")
        maxDepth      := (settingDepth? (settings.field? "mapTracking")).getD defaultDepth } := by
  rw [ofSettings?]
  split
  case isTrue h =>
    simp only [Bool.and_eq_true, Option.isNone_iff_eq_none] at h
    rw [h.left, h.right]
    rfl
  case isFalse => rfl

end Config

namespace Options

open Argument
open Config (setting? depthOf? pathOf? pathsOf)

variable {args : List String} {o : Options} {env : Environment} {settings : Option Json}

-- Arguments that are all accepted are shared options as they can be given, and give the options.
theorem acceptAll_eq_ok_iff : acceptAll args = .ok (o, []) ↔
    (∀ a ∈ group takesValue args, IsShared a) ∧ o = ofArguments (group takesValue args) := by
  let state (done : List Argument) : Options × List String :=
    (ofArguments done, (done.filter (!owns ·)).flatMap words)
  rw [acceptAll, show (({}, []) : Options × List String) = state [] from rfl]
  refine (@foldlM_eq_ok_iff _ _ _ _ state (fun a => owns a → IsShared a) _ _ ?ok ?right).trans ?all
  case ok =>
    intro done a ha
    obtain ⟨hs, _⟩ | ⟨hn, h⟩ | ⟨ho, e, h⟩ := (ofArguments done).accept_cases a
    case inl =>
      have hf : (done ++ [a]).filter (!owns ·) = done.filter (!owns ·) := by simp [hs.owns]
      simp [state, accept_ofArguments hs, hf, bind, Except.bind, pure, Except.pure]
    case inr.inl =>
      have hf : (done ++ [a]).filter (!owns ·) = done.filter (!owns ·) ++ [a] := by simp [hn]
      cases a <;>
        simp [state, h, hf, ofArguments_append_of_not_owns hn, words, bind, Except.bind, pure, Except.pure]
    case inr.inr =>
      rw [accept_ofArguments (ha ho)] at h
      cases h
  case right =>
    intro done a _ s h ho
    obtain ⟨hs, _⟩ | ⟨hn, _⟩ | ⟨_, e, he⟩ := (ofArguments done).accept_cases a
    case inl     => exact hs
    case inr.inl => exact (hn ho).elim
    case inr.inr => simp [state, he, bind, Except.bind] at h
  case all =>
    have hnil : (state (group takesValue args)).2 = [] ↔ ∀ a ∈ group takesValue args, owns a := by
      simp [state, words_ne_nil]
    constructor
    case mp =>
      rintro ⟨h, he⟩
      obtain ⟨ho, hr⟩ := Prod.mk.inj he
      exact ⟨fun a ha => h a ha (hnil.mp hr.symm a ha), ho⟩
    case mpr =>
      rintro ⟨h, rfl⟩
      exact ⟨fun a ha _ => h a ha, Prod.ext rfl (hnil.mpr fun a ha => (h a ha).owns).symm⟩

-- The settings that options name: those of a file with a JSON text, or none.
inductive Settings (env : Environment) (o : Options) : Option Json → Prop
  | absent (h : o.config = none) : Settings env o none
  | file {p : Path} {bytes : List UInt8} {text : String} {settings : Json} (h : o.config = some p)
    (hb : env.bytes p = .ok bytes) (ht : Utf8.decode? bytes = some text)
    (hj : Json.ofText? text = some settings) : Settings env o (some settings)

-- Settings of their kind take effect where no option overrides them.
theorem trackingConfig_eq (h : Settings env o settings) (root : Path) :
    o.trackingConfig env root = .ok
      { workspaceRoot :=
          some ((o.workspace.or ((setting? settings "autoit" "workspaceRoot").bind pathOf?)).getD root)
        includePaths  :=
          if o.includeDirs = [] then ((setting? settings "autoit" "includePaths").map pathsOf).getD []
          else o.includeDirs
        maxDepth      :=
          (o.maxDepth.or ((setting? settings "mapTracking" "maxIncludeDepth").bind depthOf?)).getD
            defaultDepth } := by
  cases h
  case absent hc =>
    simp [trackingConfig, hc, override, setting?, bind, Except.bind, pure, Except.pure]
  case file settings hc hb ht hj =>
    have hbounded := Json.bounded_of_ofText? hj
    have htracking : ∀ value ∈ settings.field? "mapTracking", value.Bounded := fun _ => hbounded.field?
    simp [trackingConfig, hc, Environment.readConfig, hb, ht, hj, override, setting?,
      Config.getD_ofSettings?, Config.settingWorkspace?_eq, Config.settingIncludePaths_eq,
      Config.settingDepth?_eq htracking, bind, Except.bind, pure, Except.pure, Option.getD_or]

theorem pos_of_mem_maxDepth {groups : List Argument} {depth : Nat} (h : ∀ a ∈ groups, IsShared a)
    (hd : depth ∈ (ofArguments groups).maxDepth) : 0 < depth := by
  have ⟨value, hv, hn⟩ := Option.bind_eq_some_iff.mp hd
  have ⟨a, ha, hv⟩ := List.mem_filterMap.mp <| List.mem_of_getLast? hv
  have hs := h a ha
  cases hs
  case maxDepth value' depth' hn' hd' =>
    simp [valueOf?] at hv
    cases hv
    cases hn.symm.trans hn'
    exact hd'
  all_goals simp [valueOf?] at hv

-- The depth, the workspace and the include directories of a configuration: what the options say last, or all
-- they say, or else what the settings say, or else the default. A tracker takes it over as it is.
theorem trackingConfig_precedence (ha : acceptAll args = .ok (o, [])) (hs : Settings env o settings)
    (root : Path) :
    let given flag := values flag (group takesValue args)
    ∃ config, o.trackingConfig env root = .ok config ∧
      config.maxDepth =
        (((given "--max-depth").getLast?.bind (number? depthLimit)).or
          ((setting? settings "mapTracking" "maxIncludeDepth").bind depthOf?)).getD 3 ∧
      1 ≤ config.maxDepth ∧
      config.workspaceRoot =
        some ((((given "--workspace").getLast?.map .ofText).or
          ((setting? settings "autoit" "workspaceRoot").bind pathOf?)).getD root) ∧
      config.includePaths =
        (if given "--include-dir" = [] then
          ((setting? settings "autoit" "includePaths").map pathsOf).getD []
        else (given "--include-dir").map .ofText) ∧
      ∀ workingDir, Tracker.create workingDir config =
        ⟨config, ⟨workingDir, config.workspaceRoot, config.includePaths, config.maxDepth⟩, {}⟩ := by
  intro given
  obtain ⟨hshared, rfl⟩ := acceptAll_eq_ok_iff.mp ha
  have hpos : 0 < ((ofArguments (group takesValue args)).maxDepth.or
      ((setting? settings "mapTracking" "maxIncludeDepth").bind depthOf?)).getD defaultDepth := by
    cases hm : (ofArguments (group takesValue args)).maxDepth
    case some depth => exact pos_of_mem_maxDepth hshared hm
    case none =>
      cases hv : (setting? settings "mapTracking" "maxIncludeDepth").bind Config.depthOf?
      case none       => decide
      case some depth =>
        have ⟨_, _, hv⟩ := Option.bind_eq_some_iff.mp hv
        exact Config.pos_of_depthOf? hv
  refine ⟨_, trackingConfig_eq hs root, rfl, hpos, rfl, ?paths, ?tracker⟩
  case paths => simp [ofArguments, given]
  case tracker =>
    intro workingDir
    rw [Tracker.create, Config.withPositiveDepth, if_neg (Nat.ne_of_gt hpos)]
    rfl

-- The depth is that of the settings, the directories are those of the options, and an empty workspace counts
-- as none.
theorem trackingConfig_precedence_mixed :
    let args := ["--config", "s.json", "--include-dir", "a", "--config", "t.json", "--include-dir", "b"]
    let text := "\x7b\"autoit\": \x7b\"workspaceRoot\": \"\", \"includePaths\": [\"c\"]\x7d, " ++
      "\"mapTracking\": \x7b\"maxIncludeDepth\": 7\x7d\x7d"
    let env : Environment := ⟨.directory [("t.json", .file false (.ok text.toUTF8.toList))], .ofText "/"⟩
    let o : Options := { config := some (.ofText "t.json"), includeDirs := [.ofText "a", .ofText "b"] }
    acceptAll args = .ok (o, []) ∧ ∃ config, o.trackingConfig env (.ofText "/d") = .ok config ∧
      config.maxDepth = 7 ∧ config.workspaceRoot.map (·.text) = some "/d" ∧
      config.includePaths.map (·.text) = ["a", "b"] ∧
      (Tracker.create (.ofText "/") config).resolver.maxDepth = 7 := by
  intro args text env o
  have ha : acceptAll args = .ok (o, []) := rfl
  have ⟨settings, hj⟩ : ∃ settings, Json.ofText? text = some settings :=
    Option.isSome_iff_exists.mp (by decide +kernel)
  have hd : Utf8.decode? text.toUTF8.toList = some text := by decide +kernel
  have hb : env.bytes (.ofText "t.json") = .ok text.toUTF8.toList := by decide +kernel
  have hs : Settings env o (some settings) := .file rfl hb hd hj
  have ⟨config, hc, hdepth, _, hroot, hpaths, htracker⟩ := trackingConfig_precedence ha hs (.ofText "/d")
  rw [← hj] at hdepth hroot hpaths
  have hdepth : config.maxDepth = 7 := hdepth.trans (by decide +kernel)
  refine ⟨ha, config, hc, hdepth, ?_, ?_, ?_⟩
  case refine_1 =>
    rw [hroot]
    decide +kernel
  case refine_2 =>
    rw [hpaths]
    decide +kernel
  case refine_3 => rw [htracker, ← hdepth]

end Options

end ScriptMaps
