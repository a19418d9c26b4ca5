import Mathlib.Data.List.Basic
import ScriptMaps.Command.Query
import ScriptMaps.Proofs.Command.Arguments

namespace ScriptMaps
open Text

namespace QueryCommand

open Argument

-- A group of arguments that the command `command` takes.
inductive IsGroup (command : String) : Argument → Prop
  | shared {a : Argument} (h : Options.IsShared a) : IsGroup command a
  | line {value : String} {n : Nat} (hc : command = "keys") (h : number? lineLimit value = some n)
    (hn : 1 ≤ n) : IsGroup command (.valued "--line" (some value))
  | noIncludes (hc : command = "keys") : IsGroup command (.plain "--no-includes")
  | positional {text : String} (h : ¬"--".toList.isPrefixOf text.toList) : IsGroup command (.plain text)

-- The draft that groups give.
def Draft.ofArguments (groups : List Argument) : Draft where
  options    := .ofArguments groups
  positional := positionals groups
  line       := (values "--line" groups).getLast?.bind (number? lineLimit)
  noIncludes := groups.contains (.plain "--no-includes")

variable {command : String} {a : Argument} {groups groups' : List Argument}

-- A text that does not begin with two dashes is none of the flags.
theorem ne_flag {text : String} (h : ¬"--".toList.isPrefixOf text.toList) (flag : String)
    (hf : "--".toList.isPrefixOf flag.toList) : text ≠ flag :=
  fun he => h (he ▸ hf)

namespace IsGroup

theorem fits (h : IsGroup command a) : a.Fits (takesValue command) := by
  cases h
  case shared h            => cases h <;> simp [Fits, takesValue, Options.takesValue]
  case line hc _ _         => simp [Fits, takesValue, hc]
  case noIncludes          => simp [Fits, takesValue, Options.takesValue]
  case positional text h   =>
    simp [Fits, takesValue, Options.takesValue, ne_flag h]

theorem ne_missing (h : IsGroup command a) (flag : String) : a ≠ .valued flag none := by
  rintro rfl
  cases h
  case shared h => cases h

end IsGroup

theorem push_ofArguments (h : IsGroup command a) (groups : List Argument) :
    Draft.push command (.ofArguments groups) a = .ok (.ofArguments (groups ++ [a])) := by
  have hforeign (hn : ¬Options.owns a) : (Draft.ofArguments groups).options.accept a = .ok none ∧
      Options.ofArguments (groups ++ [a]) = .ofArguments groups :=
    ⟨Options.accept_of_not_owns hn _, Options.ofArguments_append_of_not_owns hn groups⟩
  rw [Draft.push.eq_def]
  cases h
  case shared h =>
    rw [show (Draft.ofArguments groups).options.accept a = _ from Options.accept_ofArguments h groups]
    cases h <;> simp [bind, Except.bind, pure, Except.pure, Draft.ofArguments]
  case line value n hc h hn =>
    obtain ⟨haccept, hoptions⟩ := hforeign (by simp [Options.owns, Options.takesValue])
    rw [haccept]
    simp [bind, Except.bind, pure, Except.pure, Draft.ofArguments, hoptions, h, Option.filter,
      Nat.lt_of_succ_le hn]
  case noIncludes hc =>
    obtain ⟨haccept, hoptions⟩ := hforeign (by simp [Options.owns])
    rw [haccept]
    simp [bind, Except.bind, pure, Except.pure, Draft.ofArguments, hoptions, hc]
  case positional text h =>
    have hjson := ne_flag h "--json" rfl
    have hno := ne_flag h "--no-includes" rfl
    obtain ⟨haccept, hoptions⟩ := hforeign (by simp [Options.owns, hjson])
    replace h : ¬['-', '-'] <+: text.toList := by simpa using h
    rw [haccept]
    simp [bind, Except.bind, pure, Except.pure, Draft.ofArguments, hoptions, h, hno, hno.symm]

theorem isGroup_of_push {d d' : Draft} (hf : a.Fits (takesValue command))
    (h : Draft.push command d a = .ok d') : IsGroup command a := by
  rw [Draft.push.eq_def] at h
  obtain ⟨hs, _⟩ | ⟨hn, ha⟩ | ⟨_, e, he⟩ := d.options.accept_cases a
  case inl => exact .shared hs
  case inr.inr => simp [he, bind, Except.bind] at h
  case inr.inl =>
    simp only [ha, bind, Except.bind] at h
    cases a
    case plain text =>
      simp only at h
      split at h
      case isTrue ht => exact ht.right ▸ .noIncludes ht.left
      case isFalse =>
        split at h
        case isTrue => cases h
        case isFalse ht => exact .positional ht
    case valued flag value =>
      cases value
      case none => cases h
      case some value =>
        have hn : Options.takesValue flag = false := by simpa [Options.owns] using hn
        have hf : command = "keys" ∧ flag = "--line" := by simpa [Fits, takesValue, hn] using hf
        obtain ⟨hc, rfl⟩ := hf
        simp only at h
        split at h
        case h_1 n hl =>
          obtain ⟨hv, hp⟩ := Option.filter_eq_some_iff.mp hl
          exact .line hc hv (of_decide_eq_true hp)
        case h_2 => cases h

-- Groups that the command takes are read as the question they ask.
theorem read_flatMap_words (h : ∀ a ∈ groups, IsGroup command a) :
    read command (groups.flatMap words) = ofDraft command (.ofArguments groups) := by
  have hg : group (takesValue command) (groups.flatMap words) = groups :=
    group_flatMap_words (fun a ha => (h a ha).fits) fun flag hm => (h _ hm).ne_missing flag rfl
  have hd : groups.foldlM (Draft.push command) (.ofArguments []) = .ok (.ofArguments groups) :=
    (foldlM_eq_ok_iff (fun done _ ha => push_ofArguments ha done) fun _ a ha _ _ => h a ha).mpr ⟨h, rfl⟩
  rw [read, hg, show ({} : Draft) = .ofArguments [] from rfl, hd]
  rfl

theorem isGroup_of_read {args : List String} {c : QueryCommand} (h : read command args = .ok c) :
    ∀ a ∈ group (takesValue command) args, IsGroup command a := by
  rw [read, show ({} : Draft) = .ofArguments [] from rfl] at h
  cases hd : (group (takesValue command) args).foldlM (Draft.push command) (.ofArguments [])
  case error => simp [hd, bind, Except.bind] at h
  case ok d =>
    exact (foldlM_eq_ok_iff (fun done _ ha => push_ofArguments ha done)
      fun _ a ha _ => isGroup_of_push (fits_of_mem_group ha)).mp hd |>.left

theorem Draft.ofArguments_congr (h : Reordered groups groups') :
    ofArguments groups = ofArguments groups' := by
  simp [ofArguments, Options.ofArguments_congr h, h.values_eq, h.positionals_eq, h.mem_iff]

theorem ofDraft_eq_ok_iff {d : Draft} {c : QueryCommand} :
    ofDraft command d = .ok c ↔ c.options = d.options ∧
      ((command = "keys" ∧ ∃ file map, d.positional = [file, map] ∧
          c.query = .keys (.ofText file) (mapName map) d.line d.noIncludes) ∨
        (command = "includes" ∧ ∃ file, d.positional = [file] ∧ c.query = .includes (.ofText file)) ∨
        (command = "maps" ∧ ∃ file, d.positional = [file] ∧ c.query = .maps (.ofText file))) := by
  obtain ⟨query, options⟩ := c
  constructor
  case mp =>
    intro h
    rw [ofDraft.eq_def] at h
    split at h
    all_goals cases h
    case h_1 hp => exact ⟨rfl, .inl ⟨rfl, _, _, hp, rfl⟩⟩
    case h_3 hp => exact ⟨rfl, .inr <| .inl ⟨rfl, _, hp, rfl⟩⟩
    case h_4 hp => exact ⟨rfl, .inr <| .inr ⟨rfl, _, hp, rfl⟩⟩
  case mpr =>
    rintro ⟨rfl, ⟨rfl, file, map, hp, rfl⟩ | ⟨rfl, file, hp, rfl⟩ | ⟨rfl, file, hp, rfl⟩⟩
    all_goals
      rw [ofDraft.eq_def, hp]
      rfl

theorem ofDraft_ok_iff (hc : command = "keys" ∨ command = "includes" ∨ command = "maps") {d : Draft} :
    (∃ c, ofDraft command d = .ok c) ↔ d.positional.length = if command = "keys" then 2 else 1 := by
  constructor
  case mp =>
    intro ⟨c, h⟩
    obtain ⟨_, ⟨rfl, _, _, hp, _⟩ | ⟨rfl, _, hp, _⟩ | ⟨rfl, _, hp, _⟩⟩ := ofDraft_eq_ok_iff.mp h
    all_goals simp [hp]
  case mpr =>
    intro h
    obtain rfl | rfl | rfl := hc
    case inl =>
      have ⟨file, map, hp⟩ := List.length_eq_two.mp h
      exact ⟨⟨_, _⟩, ofDraft_eq_ok_iff.mpr ⟨rfl, .inl ⟨rfl, file, map, hp, rfl⟩⟩⟩
    all_goals have ⟨file, hp⟩ := List.length_eq_one_iff.mp h
    case inr.inl => exact ⟨⟨_, _⟩, ofDraft_eq_ok_iff.mpr ⟨rfl, .inr <| .inl ⟨rfl, file, hp, rfl⟩⟩⟩
    case inr.inr => exact ⟨⟨_, _⟩, ofDraft_eq_ok_iff.mpr ⟨rfl, .inr <| .inr ⟨rfl, file, hp, rfl⟩⟩⟩

-- The commands take their groups in any order, with as many texts without a flag as they need. Of the
-- values of a flag the last one counts, of include directories each one. What is asked for does not depend
-- on the order of groups with different flags.
theorem read_ok_iff_groups (hc : command = "keys" ∨ command = "includes" ∨ command = "maps") :
    (∀ args, (∃ c, read command args = .ok c) ↔
      ∃ groups, groups.flatMap words = args ∧ (∀ a ∈ groups, IsGroup command a) ∧
        (positionals groups).length = if command = "keys" then 2 else 1) ∧
    (∀ groups c, (∀ a ∈ groups, IsGroup command a) → read command (groups.flatMap words) = .ok c →
      c.options.config = (values "--config" groups).getLast?.map .ofText ∧
      c.options.workspace = (values "--workspace" groups).getLast?.map .ofText ∧
      c.options.includeDirs = (values "--include-dir" groups).map .ofText ∧
      c.options.maxDepth = (values "--max-depth" groups).getLast?.bind (number? Options.depthLimit) ∧
      c.options.json = groups.contains (.plain "--json") ∧
      ((command = "keys" ∧ ∃ file map, positionals groups = [file, map] ∧
          c.query = .keys (.ofText file) (if map.toList.head? = some '$' then map else "$" ++ map)
            ((values "--line" groups).getLast?.bind (number? lineLimit))
            (groups.contains (.plain "--no-includes"))) ∨
        (command = "includes" ∧ ∃ file, positionals groups = [file] ∧ c.query = .includes (.ofText file)) ∨
        (command = "maps" ∧ ∃ file, positionals groups = [file] ∧ c.query = .maps (.ofText file)))) ∧
    ∀ groups groups', (∀ a ∈ groups, IsGroup command a) → Reordered groups groups' →
      read command (groups.flatMap words) = read command (groups'.flatMap words) := by
  refine ⟨?accepted, ?meaning, ?order⟩
  case accepted =>
    intro args
    constructor
    case mp =>
      intro ⟨c, h⟩
      have hg := isGroup_of_read h
      rw [← flatMap_words_group args, read_flatMap_words hg] at h
      exact ⟨_, flatMap_words_group args, hg, (ofDraft_ok_iff hc).mp ⟨c, h⟩⟩
    case mpr =>
      rintro ⟨groups, rfl, hg, hn⟩
      rw [read_flatMap_words hg]
      exact (ofDraft_ok_iff hc).mpr hn
  case meaning =>
    intro groups c hg h
    rw [read_flatMap_words hg] at h
    have ⟨ho, hq⟩ := ofDraft_eq_ok_iff.mp h
    rw [ho]
    exact ⟨rfl, rfl, rfl, rfl, rfl, hq⟩
  case order =>
    intro groups groups' hg hr
    have hg' : ∀ a ∈ groups', IsGroup command a := fun a ha => hg a (hr.symm.mem ha)
    rw [read_flatMap_words hg, read_flatMap_words hg', Draft.ofArguments_congr hr]

-- The value of a flag may look like a flag, and one flag is given twice.
theorem read_ok_iff_groups_mixed :
    let args :=
      ["--json", "a.au3", "--line", "7", "--config", "--json", "m", "--line", "+3", "--no-includes"]
    let args' :=
      ["--line", "7", "--no-includes", "--line", "+3", "a.au3", "m", "--config", "--json", "--json"]
    ∃ c, read "keys" args = .ok c ∧ read "keys" args' = .ok c ∧
      c.query = .keys (.ofText "a.au3") "$m" (some 3) true ∧ c.options.config = some (.ofText "--json") ∧
      c.options.json = true ∧ c.options.maxDepth = none := by
  intro args args'
  let groups : List Argument :=
    [.plain "--json", .plain "a.au3", .valued "--line" "7", .valued "--config" "--json", .plain "m",
      .valued "--line" "+3", .plain "--no-includes"]
  let groups' : List Argument :=
    [.valued "--line" "7", .plain "--no-includes", .valued "--line" "+3", .plain "a.au3", .plain "m",
      .valued "--config" "--json", .plain "--json"]
  have ⟨haccepted, hmeaning, horder⟩ := @read_ok_iff_groups "keys" (.inl rfl)
  have hg : ∀ a ∈ groups, IsGroup "keys" a := by
    simp only [groups, List.forall_mem_cons, List.not_mem_nil, false_implies, implies_true, and_true]
    exact ⟨.shared .json, .positional (by decide), .line rfl (n := 7) (by decide) (by decide),
      .shared (.config _), .positional (by decide), .line rfl (n := 3) (by decide) (by decide), .noIncludes rfl⟩
  have ⟨c, hc⟩ := (haccepted args).mpr ⟨groups, rfl, hg, by decide⟩
  have hr : Reordered groups groups' := by decide
  have ⟨hconfig, _, _, hdepth, hjson, hquery⟩ := hmeaning groups c hg hc
  refine ⟨c, hc, (horder groups groups' hg hr).symm.trans hc, ?_, hconfig, hjson, hdepth⟩
  obtain ⟨_, file, map, hp, hq⟩ | ⟨hn, _⟩ | ⟨hn, _⟩ := hquery
  case inl =>
    cases hp
    exact hq
  all_goals exact absurd hn (by decide)

end QueryCommand

end ScriptMaps
