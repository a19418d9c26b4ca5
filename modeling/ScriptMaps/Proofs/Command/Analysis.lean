import Mathlib.Algebra.BigOperators.Group.List.Basic
import ScriptMaps.Command.Analysis
import ScriptMaps.Proofs.Command.Arguments
import ScriptMaps.Proofs.Disk.Tree
import ScriptMaps.Proofs.Tracker.Identity
import ScriptMaps.Proofs.Tracker.Together

namespace ScriptMaps

namespace AnalysisCommand

open Argument

-- Whether a group asks for one phase only.
def asksOnly : Argument → Bool
  | .plain _       => false
  | .valued flag _ => flag == "--only"

-- The arguments without the groups that ask for one phase only.
def withoutOnly (args : List String) : List String :=
  ((group takesValue args).filter (!asksOnly ·)).flatMap words

variable {env : Environment} {c : AnalysisCommand} {args : List String} {groups : List Argument}
  {a : Argument} {d d' : Draft}

theorem push_of_asksOnly (ha : asksOnly a) (h : d.push a = .ok d') :
    { d' with only := none } = { d with only := none } := by
  match a, ha with
  | .valued flag value, ha =>
    obtain rfl : flag = "--only" := by simpa [asksOnly] using ha
    have hn : ¬Options.owns (.valued "--only" value) := by simp [Options.owns, Options.takesValue]
    rw [Draft.push.eq_def, Options.accept_of_not_owns hn] at h
    cases value
    case none => cases h
    case some value =>
      simp only [bind, Except.bind] at h
      split at h <;> cases h
      rfl

theorem push_of_not_asksOnly (hf : a.Fits takesValue) (ha : ¬asksOnly a) (h : d.push a = .ok d') :
    Draft.push { d with only := none } a = .ok { d' with only := none } := by
  rw [Draft.push.eq_def] at h ⊢
  obtain ⟨_, o, ho⟩ | ⟨hn, ho⟩ | ⟨_, e, ho⟩ := d.options.accept_cases a
  case inl =>
    simp only [ho, bind, Except.bind] at h ⊢
    cases h
    rfl
  case inr.inr =>
    simp only [ho, bind, Except.bind] at h
    cases h
  case inr.inl =>
    simp only [ho, bind, Except.bind] at h ⊢
    match a, hf with
    | .valued flag value, hf =>
      have hf : Options.takesValue flag := by
        simpa [Fits, takesValue, show flag ≠ "--only" by simpa [asksOnly] using ha] using hf
      exact (hn hf).elim
    | .plain text, _ =>
      simp only at h ⊢
      split at h
      case isTrue hcsv =>
        cases h
        exact if_pos hcsv
      case isFalse hcsv =>
        split at h
        case isTrue => cases h
        case isFalse hdash =>
          split at h <;> cases h
          case isFalse.refl hroot => exact (if_neg hcsv).trans <| (if_neg hdash).trans (if_neg hroot)

theorem push_missing_ne (flag : String) : d.push (.valued flag none) ≠ .ok d' := by
  intro h
  rw [Draft.push.eq_def] at h
  obtain ⟨hs, _⟩ | ⟨_, ho⟩ | ⟨_, e, ho⟩ := d.options.accept_cases (.valued flag none)
  case inl => cases hs
  all_goals
    simp only [ho, bind, Except.bind] at h
    cases h

-- Without the groups that ask for one phase only the draft is the same but for the phase.
theorem foldlM_push_filter (hf : ∀ a ∈ groups, a.Fits takesValue) (h : groups.foldlM Draft.push d = .ok d') :
    (groups.filter (!asksOnly ·)).foldlM Draft.push { d with only := none } =
      .ok { d' with only := none } := by
  induction groups generalizing d
  case nil =>
    cases h
    rfl
  case cons a groups hi =>
    have ⟨ha, hf⟩ := List.forall_mem_cons.mp hf
    rw [List.foldlM_cons] at h
    cases hp : d.push a <;> simp only [hp, bind, Except.bind] at h
    case error => cases h
    case ok next =>
      by_cases ho : asksOnly a
      case pos => simpa [ho, ← push_of_asksOnly ho hp] using hi hf h
      case neg =>
        rw [List.filter_cons_of_pos (by simpa using ho), List.foldlM_cons, push_of_not_asksOnly ha ho hp]
        exact hi hf h

theorem read_of_draft {root : Path} (hd : (group takesValue args).foldlM Draft.push {} = .ok d)
    (hr : d.root = some root) (hp : env.isDirectory root) :
    read env args = .ok ⟨root, d.csv, d.only, d.options⟩ := by
  simp [read, hd, hr, hp, bind, Except.bind, pure, Except.pure]

theorem exists_draft_of_read (h : read env args = .ok c) :
    ∃ d, (group takesValue args).foldlM Draft.push {} = .ok d ∧ d.root = some c.root ∧
      env.isDirectory c.root ∧ c = ⟨c.root, d.csv, d.only, d.options⟩ := by
  rw [read] at h
  cases hd : (group takesValue args).foldlM Draft.push {} <;> simp only [hd, bind, Except.bind] at h
  case error => cases h
  case ok d =>
    split at h
    case h_1 => cases h
    case h_2 root hr =>
      split at h <;> cases h
      case isTrue.refl hp => exact ⟨d, rfl, hr, hp, rfl⟩

theorem read_withoutOnly (h : read env args = .ok c) :
    read env (withoutOnly args) = .ok { c with only := none } := by
  have ⟨d, hd, hroot, hdir, hc⟩ := exists_draft_of_read h
  have hg : group takesValue (withoutOnly args) = (group takesValue args).filter (!asksOnly ·) := by
    refine group_flatMap_words (fun a ha => fits_of_mem_group (List.mem_filter.mp ha).left) fun flag hm => ?_
    have ⟨_, _, hs⟩ := exists_step_of_foldlM hd (List.mem_filter.mp hm).left
    exact push_missing_ne flag hs
  have hd' := foldlM_push_filter (fun a => fits_of_mem_group) hd
  rw [← hg] at hd'
  rw [read_of_draft hd' hroot hdir, hc]

-- The phases that are reported.
def phases (c : AnalysisCommand) : List Phase :=
  match c.only with
  | some phase => [phase]
  | none       => Phase.all

theorem phases_eq (c : AnalysisCommand) : c.phases = Phase.all.filter c.selects := by
  obtain ⟨root, csv, only, options⟩ := c
  cases only
  case none       => rfl
  case some phase => cases phase <;> rfl

end AnalysisCommand

-- How many keys there are, each kind by itself.
def MapKeys.count (keys : MapKeys) : Nat :=
  keys.directKeys.length + keys.functionKeys.length

namespace Analysis

variable {env : Environment} {c : AnalysisCommand} {config : Config} {sources : Sources} {t t' : Tracker}
  {questions files : List (Path × String)} {root : Path}

-- What a phase finds by itself, with a new tracker `t` for the scripts.
def detail (env : Environment) (root : Path) (t : Tracker) (phase : Phase) : String :=
  let files := env.scripts root
  match phase with
  | .scan     => toString files.length ++ " files"
  | .parse    => (files.foldl Parsed.add { tracker := t }).detail files.length
  | .includes => (files.foldl (Followed.add env.sources (t.updateAll files)) {}).detail
  | .keys     => (files.foldl (Asked.add env.sources) { tracker := t.updateAll files }).detail

theorem Parsed.foldl_add (s : Parsed) (files : List (Path × String)) :
    files.foldl add s =
      ⟨s.tracker.updateAll files,
        s.declarations + (files.map fun f => (Script.ofText f.2).declarations.length).sum,
        s.functions + (files.map fun f => (Script.ofText f.2).functions.length).sum⟩ := by
  induction files generalizing s
  case nil => rfl
  case cons f files hi =>
    have hf : (s.tracker.update f.1 f.2).script? f.1 = some (.ofText f.2) := PathTable.find?_insert_self
    have hs : s.add f = ⟨s.tracker.update f.1 f.2, s.declarations + (Script.ofText f.2).declarations.length,
        s.functions + (Script.ofText f.2).functions.length⟩ := by
      simp only [add, hf]
    rw [List.foldl_cons, hs, hi, List.map_cons, List.map_cons, List.sum_cons, List.sum_cons, Nat.add_assoc,
      Nat.add_assoc]
    rfl

-- What stands when a phase begins. The scripts are tracked for those of the later phases that are asked for.
def Ready (env : Environment) (c : AnalysisCommand) (t : Tracker) (a : Analysis) : Phase → Prop
  | .scan => a.tracker = t
  | .parse => a.files = env.scripts c.root ∧ a.tracker = t
  | .includes | .keys => a.files = env.scripts c.root ∧
      (c.selects .includes ∨ c.selects .keys → a.tracker = t.updateAll (env.scripts c.root))

namespace Ready

variable {a : Analysis}

theorem parse (h : a.Ready env c t .scan) : (a.advance env c .scan).Ready env c t .parse := by
  rw [advance]
  split
  case isTrue  => exact ⟨rfl, h⟩
  case isFalse => exact ⟨rfl, h⟩

theorem includes (h : a.Ready env c t .parse) : (a.advance env c .parse).Ready env c t .includes := by
  obtain ⟨hf, ht⟩ := h
  rw [advance]
  split
  case isTrue =>
    have htracked : (a.files.foldl Parsed.add { tracker := a.tracker }).tracker =
        t.updateAll (env.scripts c.root) := by
      rw [Parsed.foldl_add, hf, ht]
    dsimp only
    split
    case isTrue  => exact ⟨hf, fun _ => htracked⟩
    case isFalse => exact ⟨hf, fun _ => htracked⟩
  case isFalse hn =>
    rw [Bool.or_eq_true, Bool.or_eq_true, or_assoc, not_or] at hn
    exact ⟨hf, fun hs => absurd hs hn.right⟩

theorem keys (h : a.Ready env c t .includes) : (a.advance env c .includes).Ready env c t .keys := by
  rw [advance]
  split
  case isTrue  => exact h
  case isFalse => exact h

-- A phase reports what it finds by itself if it is asked for, and nothing otherwise.
theorem findings {phase : Phase} (h : a.Ready env c t phase) :
    (a.advance env c phase).findings =
      a.findings ++ if c.selects phase then [(phase, detail env c.root t phase)] else [] := by
  cases hs : c.selects phase
  case false =>
    cases phase
    case parse =>
      simp only [advance, hs]
      split <;> simp
    case scan | includes | keys => simp [advance, hs]
  case true =>
    cases phase
    case scan => simp [advance, hs, report, detail]
    case parse =>
      obtain ⟨hf, ht⟩ := h
      simp [advance, hs, report, detail, hf, ht]
    case includes =>
      obtain ⟨hf, ht⟩ := h
      simp [advance, hs, report, detail, hf, ht (.inl hs)]
    case keys =>
      obtain ⟨hf, ht⟩ := h
      simp [advance, hs, report, detail, hf, ht (.inr hs)]

end Ready

theorem run_eq_foldl (env : Environment) (c : AnalysisCommand) (config : Config) :
    (c.run (m := Id) (fun _ phase => phase ()) env config).run =
      Phase.all.foldl (advance env c) { tracker := Tracker.create env.workingDir config } :=
  List.idRun_foldlM ..

-- Each phase that is reported finds what it finds by itself, whichever other phases there are.
theorem findings_run (env : Environment) (c : AnalysisCommand) (config : Config) :
    (c.run (m := Id) (fun _ phase => phase ()) env config).run.findings =
      c.phases.map fun p => (p, detail env c.root (Tracker.create env.workingDir config) p) := by
  let t := Tracker.create env.workingDir config
  let row (p : Phase) := (p, detail env c.root t p)
  have hrow (p : Phase) : (if c.selects p then [row p] else []) = ([p].filter c.selects).map row := by
    cases hp : c.selects p <;> simp [hp]
  have hscan : Ready env c t { tracker := t } .scan := rfl
  have hparse := hscan.parse
  have hincludes := hparse.includes
  have hkeys := hincludes.keys
  rw [run_eq_foldl, AnalysisCommand.phases_eq]
  simp only [Phase.all, List.foldl_cons, List.foldl_nil]
  rw [hkeys.findings, hincludes.findings, hparse.findings, hscan.findings, hrow, hrow, hrow, hrow,
    List.nil_append, ← List.map_append, ← List.map_append, ← List.map_append, ← List.filter_append,
    ← List.filter_append, ← List.filter_append]
  rfl

-- The questions about the Maps that scripts declare.
def questionsOf (files : List (Path × String)) : List (Path × String) :=
  files.flatMap fun f => (Script.ofText f.2).declarations.map fun d => (f.1, d.name)

theorem length_questionsOf (files : List (Path × String)) :
    (questionsOf files).length = (files.map fun f => (Script.ofText f.2).declarations.length).sum := by
  simp only [questionsOf, List.length_flatMap, List.length_map]

theorem sum_questionsOf (files : List (Path × String)) (count : Path × String → Nat) :
    ((questionsOf files).map count).sum =
      (files.map fun f => ((Script.ofText f.2).declarations.map fun d => count (f.1, d.name)).sum).sum := by
  rw [questionsOf, List.map_flatMap, List.flatMap_def, List.sum_flatten, List.map_map]
  simp only [Function.comp_def, List.map_map]

theorem questionsOf_perm {files' : List (Path × String)} (h : files.Perm files') :
    (questionsOf files).Perm (questionsOf files') :=
  h.flatMap_right _

theorem exists_of_mem_questionsOf {q : Path × String} (h : q ∈ questionsOf files) :
    ∃ f ∈ files, f.1 = q.1 := by
  have ⟨f, hf, hq⟩ := List.mem_flatMap.mp h
  obtain ⟨_, _, rfl⟩ := List.mem_map.mp hq
  exact ⟨f, hf, rfl⟩

-- How many keys the questions find, one after the other. Files that a question comes to are tracked for the
-- next ones.
def countKeys (sources : Sources) : Tracker → List (Path × String) → Nat
  | _, [] => 0
  | t, (p, map) :: rest =>
    let (t, keys) := t.keysWithIncludes sources p map .everywhere
    keys.count + countKeys sources t rest

-- What questions find does not depend on the files that earlier ones came to.
theorem countKeys_eq (hr : t.resolver.IsAbsolute) (h : t.Extends sources t')
    (hq : ∀ q ∈ questions, t.isTracked q.1) :
    countKeys sources t' questions =
      (questions.map fun q => (t.keysWithIncludes sources q.1 q.2 .everywhere).2.count).sum := by
  induction questions generalizing t'
  case nil => rfl
  case cons q questions hi =>
    have ⟨hp, hq⟩ := List.forall_mem_cons.mp hq
    have hnext := t'.extends_keysWithIncludes (h.resolver ▸ hr) sources q.1 q.2 .everywhere
    have hfound : (t'.keysWithIncludes sources q.1 q.2 .everywhere).2 =
        (t.keysWithIncludes sources q.1 q.2 .everywhere).2 :=
      h.keysWithIncludes_congr hr (h.keys_eq hp)
    rw [List.map_cons, List.sum_cons, ← hi (h.trans hnext) hq, ← hfound]
    rfl

namespace Asked

variable {s : Asked}

def askAll (sources : Sources) (s : Asked) (questions : List (Path × String)) : Asked :=
  questions.foldl (fun s q => s.ask sources q.1 q.2) s

theorem extends_askAll (hr : t.resolver.IsAbsolute) (h : t.Extends sources s.tracker)
    (questions : List (Path × String)) : t.Extends sources (s.askAll sources questions).tracker := by
  induction questions generalizing s
  case nil => exact h
  case cons q questions hi =>
    exact hi <| h.trans <| s.tracker.extends_keysWithIncludes (h.resolver ▸ hr) sources q.1 q.2 .everywhere

theorem counts_askAll (sources : Sources) (s : Asked) (questions : List (Path × String)) :
    (s.askAll sources questions).queries = s.queries + questions.length ∧
      (s.askAll sources questions).keys = s.keys + countKeys sources s.tracker questions := by
  induction questions generalizing s
  case nil => exact ⟨rfl, rfl⟩
  case cons q questions hi =>
    have ⟨hqueries, hkeys⟩ := hi (s.ask sources q.1 q.2)
    constructor
    case left  => exact hqueries.trans (by simp [ask, Nat.add_comm, Nat.add_left_comm])
    case right => exact hkeys.trans (by simp [ask, countKeys, MapKeys.count, Nat.add_assoc])

-- The names of a script's Maps are the same before and after the questions about other scripts.
theorem foldl_add (hr : t.resolver.IsAbsolute) (h : t.Extends sources s.tracker)
    (hf : ∀ f ∈ files, t.script? f.1 = some (.ofText f.2)) :
    files.foldl (add sources) s = s.askAll sources (questionsOf files) := by
  induction files generalizing s
  case nil => rfl
  case cons f files hi =>
    have ⟨hf, hfiles⟩ := List.forall_mem_cons.mp hf
    have hadd : s.add sources f = s.askAll sources (questionsOf [f]) := by
      simp [add, askAll, questionsOf, h.script?_eq hf, List.foldl_map]
    rw [List.foldl_cons, hadd, hi (extends_askAll hr h _) hfiles]
    simp [askAll, questionsOf]

end Asked

-- The keys are counted as if each question were asked first, whatever order the scripts are taken in.
theorem countKeys_updateAll {files' : List (Path × String)} (hr : t.resolver.IsAbsolute) (hs : t.scripts = {})
    (hd : (t.textsOf files).Distinct) (hp : files.Perm files') (sources : Sources) :
    countKeys sources (t.updateAll files') (questionsOf files') =
      ((questionsOf files).map fun q =>
        ((t.updateAll files).keysWithIncludes sources q.1 q.2 .everywhere).2.count).sum := by
  have hext := Tracker.extends_updateAll_of_perm hs hd hp.symm sources
  have hr' : (t.updateAll files).resolver.IsAbsolute := by rwa [Tracker.updateAll_eq]
  have htracked : ∀ q ∈ questionsOf files', (t.updateAll files).isTracked q.1 := by
    intro q hq
    have ⟨f, hf, hpath⟩ := exists_of_mem_questionsOf hq
    rw [← hpath, Tracker.isTracked, Tracker.script?_updateAll hs hd (hp.mem_iff.mpr hf), Option.isSome_some]
  rw [countKeys_eq hr' hext htracked]
  exact ((questionsOf_perm hp.symm).map _).sum_eq

theorem distinct_textsOf_scripts (hr : t.resolver.IsAbsolute) (ht : env.disk.IsTree) (root : Path) :
    (t.textsOf (env.scripts root)).Distinct := by
  refine Tracker.distinct_textsOf hr ?_
  simp only [Tracker.key_eq_absolutize]
  exact env.pairwise_scripts ht root hr.base

theorem detail_keys_eq (hw : env.workingDir.isAbsolute) (ht : env.disk.IsTree) (hc : config.IsAbsolute)
    (hp : files.Perm (env.scripts root)) :
    let t := Tracker.create env.workingDir config
    detail env root t .keys =
      toString (questionsOf files).length ++ " Map queries, " ++
        toString ((questionsOf files).map fun q =>
          ((t.updateAll files).keysWithIncludes env.sources q.1 q.2 .everywhere).2.count).sum ++ " keys" := by
  intro t
  have hr : t.resolver.IsAbsolute := (Tracker.ReachedWith.create hc).isAbsolute_resolver hw
  have hd := distinct_textsOf_scripts hr ht root
  have hr' : (t.updateAll (env.scripts root)).resolver.IsAbsolute := by rwa [Tracker.updateAll_eq]
  have hadd := Asked.foldl_add (s := { tracker := t.updateAll (env.scripts root) }) hr' (.refl env.sources _)
    fun f hf => Tracker.script?_updateAll rfl hd hf
  have ⟨hqueries, hkeys⟩ := Asked.counts_askAll env.sources { tracker := t.updateAll (env.scripts root) }
    (questionsOf (env.scripts root))
  rw [detail, hadd, Asked.detail, hqueries, hkeys, countKeys_updateAll hr rfl (hd.perm (hp.map _)) hp,
    (questionsOf_perm hp).length_eq, Nat.zero_add, Nat.zero_add]

end Analysis

namespace AnalysisCommand

theorem filter_phases (detail : Phase → String) (p : Phase) :
    (Phase.all.map fun q => (q, detail q)).filter (·.1 = p) = [(p, detail p)] := by
  cases p <;> rfl

-- Which phases are reported makes no difference to the configuration, nor to what a phase finds.
theorem findings_cases (env : Environment) (c : AnalysisCommand) :
    (∃ e, c.options.trackingConfig env c.root = .error e ∧
      ∀ only, { c with only }.findings env = .error e) ∨
    ∃ config, c.options.trackingConfig env c.root = .ok config ∧
      ∀ only, { c with only }.findings env = .ok ({ c with only }.phases.map fun p =>
        (p, Analysis.detail env c.root (Tracker.create env.workingDir config) p)) := by
  cases h : c.options.trackingConfig env c.root
  case error e =>
    refine .inl ⟨e, rfl, fun only => ?_⟩
    rw [findings, h]
    rfl
  case ok config =>
    refine .inr ⟨config, rfl, fun only => ?_⟩
    rw [findings, h]
    exact congrArg Except.ok <| Analysis.findings_run env { c with only } config

end AnalysisCommand

-- A phase that is reported alone finds what it finds among all. The phase that counts keys finds as many as
-- the questions about each script's own Maps do, with the scripts of the workspace tracked and no others;
-- neither the order of the scripts nor what earlier questions have tracked makes a difference.
theorem AnalysisCommand.findings_only_and_keys {env : Environment} {c : AnalysisCommand} {args : List String}
    (h : read env args = .ok c) :
    (∀ p, c.only = some p →
      read env (withoutOnly args) = .ok { c with only := none } ∧
      ((∃ e, c.findings env = .error e ∧ { c with only := none }.findings env = .error e) ∨
        ∃ rows row, c.findings env = .ok [row] ∧ { c with only := none }.findings env = .ok rows ∧
          row.1 = p ∧ rows.filter (·.1 = p) = [row])) ∧
    ∀ (config : Config) (files : List (Path × String)) rows detail,
      env.workingDir.isAbsolute → env.disk.IsTree → c.options.trackingConfig env c.root = .ok config →
      config.IsAbsolute → files.Perm (env.scripts c.root) →
      c.findings env = .ok rows → (.keys, detail) ∈ rows →
      let cache := files.foldl (fun t f => t.update f.1 f.2) (Tracker.create env.workingDir config)
      detail =
        toString (files.map fun f => (Script.ofText f.2).declarations.length).sum ++ " Map queries, " ++
          toString (files.map fun f => ((Script.ofText f.2).declarations.map fun d =>
            (cache.keysWithIncludes env.sources f.1 d.name .everywhere).2.count).sum).sum ++ " keys" := by
  constructor
  case left =>
    intro p hp
    obtain ⟨root, csv, only, options⟩ := c
    obtain rfl : only = some p := hp
    refine ⟨read_withoutOnly h, ?_⟩
    obtain ⟨e, _, hf⟩ | ⟨_, _, hf⟩ := findings_cases env ⟨root, csv, some p, options⟩
    case inl => exact .inl ⟨e, hf _, hf _⟩
    case inr => exact .inr ⟨_, _, hf _, hf _, rfl, filter_phases _ p⟩
  case right =>
    intro config files rows detail hw ht hconfig hc hp hrows hm
    obtain ⟨e, _, hf⟩ | ⟨_, hconfig', hf⟩ := findings_cases env c
    case inl =>
      rw [hf c.only] at hrows
      cases hrows
    case inr =>
      cases hconfig.symm.trans hconfig'
      rw [hf c.only] at hrows
      cases hrows
      obtain ⟨_, _, he⟩ := List.mem_map.mp hm
      cases he
      rw [Analysis.detail_keys_eq hw ht hc hp, Analysis.length_questionsOf, Analysis.sum_questionsOf]
      rfl

-- One script includes the other, and the scripts are taken the other way round.
theorem AnalysisCommand.findings_only_and_keys_reversed :
    let file (text : String) := Node.file false (.ok text.toUTF8.toList)
    let entries :=
      [("a.au3", file "#include \"b.au3\"\nGlobal $m[]\n$m.x = 1\n"),
        ("b.au3", file "Global $n[]\n$m.y = 2\n")]
    let env : Environment := ⟨.directory [("w", .directory entries)], .ofText "/"⟩
    let c : AnalysisCommand := ⟨.ofText "/w", false, some .keys, {}⟩
    let files := (env.scripts c.root).reverse
    let cache := files.foldl (fun t f => t.update f.1 f.2)
      (Tracker.create env.workingDir { workspaceRoot := some (.ofText "/w") })
    let keys := (files.map fun f => ((Script.ofText f.2).declarations.map fun d =>
      (cache.keysWithIncludes env.sources f.1 d.name .everywhere).2.count).sum).sum
    files.map (·.1.text) = ["/w/b.au3", "/w/a.au3"] ∧
    read env ["/w", "--only", "keys"] = .ok c ∧ read env ["/w"] = .ok { c with only := none } ∧
    ∃ rows, c.findings env = .ok [(.keys, "2 Map queries, " ++ toString keys ++ " keys")] ∧
      { c with only := none }.findings env = .ok rows ∧
      rows.filter (·.1 = .keys) = [(.keys, "2 Map queries, " ++ toString keys ++ " keys")] := by
  intro file entries env c files cache keys
  have hfiles : files = (Node.scriptsIn c.root entries).reverse := by
    have hsegments : (env.workingDir.join c.root).text.toList.splitOn '/' = [[], ['w']] := by decide +kernel
    have hl : env.locate c.root = .ok (.directory entries) := by
      rw [Environment.locate, if_neg (by decide +kernel), if_neg (by decide +kernel),
        if_neg (by decide +kernel), Node.locate, hsegments]
      rfl
    have hscripts : env.scripts c.root = Node.scriptsIn c.root entries := by
      rw [Environment.scripts, hl]
      exact List.mergeSort_of_pairwise (by decide +kernel)
    exact congrArg List.reverse hscripts
  have ht : env.disk.IsTree := by
    have hw : IsName "w" := ⟨by decide, by decide, by decide⟩
    have ha : IsName "a.au3" := ⟨by decide, by decide, by decide⟩
    have hb : IsName "b.au3" := ⟨by decide, by decide, by decide⟩
    have hentries : (Node.directory entries).IsTree :=
      .directory (by simp [entries, ha, hb]) (by simp [entries])
        (by simpa [entries] using ⟨Node.IsTree.file .., Node.IsTree.file ..⟩)
    exact .directory (by simpa using hw) (List.pairwise_singleton ..) (by simpa using hentries)
  have hread : read env ["/w", "--only", "keys"] = .ok c :=
    read_of_draft (d := ⟨c.root, false, some .keys, {}⟩) rfl rfl (by decide +kernel)
  obtain ⟨honly, hkeys⟩ := findings_only_and_keys hread
  obtain ⟨hread', hrows⟩ := honly .keys rfl
  obtain ⟨e, hf, _⟩ | ⟨rows, ⟨p, detail⟩, hf, hf', rfl, hrow⟩ := hrows
  case inl => cases hf
  case inr =>
    have hconfig : Config.IsAbsolute { workspaceRoot := some (.ofText "/w") } :=
      ⟨by decide +kernel, by decide +kernel⟩
    have hdetail := hkeys _ files _ detail (by decide) ht rfl hconfig (List.reverse_perm _) hf (.head _)
    have hcount : (files.map fun f => (Script.ofText f.2).declarations.length).sum = 2 := by
      rw [hfiles]
      decide +kernel
    have hpaths : files.map (·.1.text) = ["/w/b.au3", "/w/a.au3"] := by
      rw [hfiles]
      decide +kernel
    rw [hcount] at hdetail
    cases hdetail
    exact ⟨hpaths, hread, hread', rows, hf, hf', hrow⟩

end ScriptMaps
