import ScriptMaps.Proofs.Include.Reachability
import ScriptMaps.Proofs.Path.Table
import ScriptMaps.Proofs.Tracker.Run

namespace ScriptMaps

theorem eraseDups_eraseDups {α : Type} [BEq α] [LawfulBEq α] (as : List α) :
    as.eraseDups.eraseDups = as.eraseDups := by
  match as with
  | []      => rfl
  | a :: as =>
    have hf : ((as.filter (!· == a)).eraseDups.filter (!· == a)) = (as.filter (!· == a)).eraseDups := by
      apply List.filter_eq_self.mpr
      intro b hb
      exact (List.mem_filter.mp <| List.mem_eraseDups.mp hb).right
    rw [List.eraseDups_cons, List.eraseDups_cons, hf, eraseDups_eraseDups]
termination_by as.length
decreasing_by exact Nat.lt_succ_of_le <| List.length_filter_le _ _

theorem eraseDups_append_eraseDups {α : Type} [BEq α] [LawfulBEq α] (as bs : List α) :
    (as.eraseDups ++ bs).eraseDups = (as ++ bs).eraseDups := by
  have hr : bs.removeAll as.eraseDups = bs.removeAll as := by
    apply List.filter_congr
    simp
  rw [List.eraseDups_append, List.eraseDups_append, eraseDups_eraseDups, hr]

theorem Script.eraseDups_directKeys (s : Script) (map : String) (point : QueryPoint) :
    (s.keysAt map point).directKeys.eraseDups = (s.keysAt map point).directKeys :=
  eraseDups_eraseDups _

namespace Tracker

variable {sources : Sources} {map : String} {t t' : Tracker} {f : Path}

-- The keys that an included file contributes: those of the text that is read for it, if there is one.
def share (t : Tracker) (sources : Sources) (map : String) (f : Path) : MapKeys :=
  match (sources.under t.scripts).read f with
  | .ok text => (Script.ofText text).keysAt map .everywhere
  | .error _ => {}

-- The entry that is made for an included file: none if it is tracked or cannot be read.
def addition? (t : Tracker) (sources : Sources) (f : Path) : Option (Path × Script) :=
  if t.isTracked f then none
  else match (sources.under t.scripts).read f with
    | .ok text => some (f, Script.ofText text)
    | .error _ => none

-- A file that is known everywhere by the same path: to the tracker as to the sources.
structure Settled (t : Tracker) (f : Path) : Prop where
  key_eq      : t.key f = f
  identity_eq : f.identity = f

theorem key_eq_absolutize (t : Tracker) (p : Path) : t.key p = t.resolver.absolutize p :=
  Path.identity_absolutize ..

theorem root_traverse (t : Tracker) (sources : Sources) (p : Path) :
    (t.traverse sources p).root = t.key p := by
  rw [traverse, Resolver.root_traverse, key_eq_absolutize]

theorem eraseDups_directKeys (t : Tracker) (p : Path) (map : String) (point : QueryPoint) :
    (t.keys p map point).directKeys.eraseDups = (t.keys p map point).directKeys := by
  rw [keys]
  split
  case h_1 script _ => exact script.eraseDups_directKeys map point
  case h_2          => rfl

theorem Reached.isAbsolute {workingDir : Path} (h : t.Reached workingDir) (hw : workingDir.isAbsolute)
    (hroot : ∀ root ∈ t.config.workspaceRoot, root.isAbsolute)
    (hdirs : ∀ dir ∈ t.config.includePaths, dir.isAbsolute) : t.resolver.IsAbsolute :=
  h.resolver_eq ▸ ⟨hw, hroot, hdirs⟩

namespace Settled

theorem script?_eq (h : t.Settled f) : t.script? f = t.scripts.find? f := by
  rw [script?, h.key_eq]

theorem read_tracked (h : t.Settled f) {script : Script} (hs : t.script? f = some script) :
    (sources.under t.scripts).read f = .ok script.source := by
  simp [Sources.under, h.identity_eq, h.script?_eq ▸ hs]

theorem read_untracked (h : t.Settled f) (hs : t.script? f = none) :
    (sources.under t.scripts).read f = sources.read f := by
  simp [Sources.under, h.identity_eq, h.script?_eq ▸ hs]

theorem share_congr (h : t.Settled f) (hf : t'.scripts.find? f = t.scripts.find? f) :
    t'.share sources map f = t.share sources map f := by
  simp only [share, Sources.under, h.identity_eq, hf]

theorem addition?_congr (h : t.Settled f) (h' : t'.Settled f)
    (hf : t'.scripts.find? f = t.scripts.find? f) : t'.addition? sources f = t.addition? sources f := by
  simp only [addition?, isTracked, h.script?_eq, h'.script?_eq, Sources.under, h.identity_eq, hf]

theorem congr (h : t.Settled f) (hr : t'.resolver = t.resolver) : t'.Settled f where
  key_eq      := by rw [key, hr]; exact h.key_eq
  identity_eq := h.identity_eq

-- A file that is tracked afterwards has the text that was read for it, and other files are as before.
theorem track?_some (h : t.Settled f) (map : String) (ht : t.track? sources f = some t') :
    t'.keys f map .everywhere = t.share sources map f ∧
    t'.scripts.entries = t.scripts.entries ++ (t.addition? sources f).toList ∧
    ∀ g, ¬f == g → t'.scripts.find? g = t.scripts.find? g := by
  cases hs : t.script? f
  case some script =>
    have hk : t.isTracked f := by simp [isTracked, hs]
    have he : t = t' := by simpa [track?, hk] using ht
    subst he
    refine ⟨?keys, ?entries, fun _ _ => rfl⟩
    case keys    => simp [keys, hs, share, h.read_tracked hs]
    case entries => simp [addition?, hk]
  case none =>
    have hk : ¬t.isTracked f := by simp [isTracked, hs]
    rw [track?, if_neg hk] at ht
    split at ht
    case h_2         => simp at ht
    case h_1 text hr =>
      have he : t.update f text = t' := by simpa using ht
      subst he
      refine ⟨?keys, ?entries, ?others⟩
      case keys =>
        have hu : (t.update f text).script? f = some (.ofText text) := PathTable.find?_insert_self
        simp [keys, hu, share, h.read_untracked hs, hr]
      case entries =>
        have hc := PathTable.contains_eq_false.mpr <| h.script?_eq ▸ hs
        simp [addition?, hk, h.read_untracked hs, hr, update, h.key_eq, PathTable.entries_insert hc]
      case others =>
        intro g hg
        simpa only [update, h.key_eq] using PathTable.find?_insert_of_ne hg

theorem track?_none (h : t.Settled f) (map : String) (ht : t.track? sources f = none) :
    t.share sources map f = {} ∧ t.addition? sources f = none := by
  rw [track?] at ht
  split at ht
  case isTrue     => simp at ht
  case isFalse hk =>
    split at ht
    case h_1      => simp at ht
    case h_2 e hr =>
      have hs : t.script? f = none := by simpa [isTracked] using hk
      simp [share, addition?, h.read_untracked hs, hr]

end Settled

-- Keys are collected file by file, and each file that is passed over or tracked already leaves the
-- scripts as they are. The files are told apart, so that tracking one says nothing about another.
theorem collect_eq (sources : Sources) (map : String) (files : List Path) (t : Tracker)
    (found : MapKeys) (hf : ∀ f ∈ files, t.Settled f)
    (hd : files.Pairwise (¬· == ·)) (hk : found.directKeys.eraseDups = found.directKeys) :
    (collect sources map files (t, found)).2 =
      { directKeys   := (found.directKeys ++
          files.flatMap (t.share sources map · |>.directKeys)).eraseDups
        functionKeys := found.functionKeys ++
          files.flatMap (t.share sources map · |>.functionKeys) } ∧
    (collect sources map files (t, found)).1.scripts.entries =
      t.scripts.entries ++ files.filterMap (t.addition? sources) := by
  induction files generalizing t found
  case nil => simp [collect, hk]
  case cons f files hi =>
    obtain ⟨hf, hfs⟩ := List.forall_mem_cons.mp hf
    obtain ⟨hn, hd⟩ := List.pairwise_cons.mp hd
    rw [collect]
    split
    case h_2 ht =>
      obtain ⟨hs, he⟩ := hf.track?_none map ht
      simpa [hs, he] using hi t found hfs hd hk
    case h_1 t' ht =>
      obtain ⟨hs, he, ho⟩ := hf.track?_some map ht
      obtain ⟨_, hr⟩ := track?_preserves ht
      have hfs' := fun g hg => (hfs g hg).congr hr
      have hshare : ∀ g ∈ files, t'.share sources map g = t.share sources map g :=
        fun g hg => (hfs g hg).share_congr <| ho g (hn g hg)
      have hadd : ∀ g ∈ files, t'.addition? sources g = t.addition? sources g :=
        fun g hg => (hfs g hg).addition?_congr (hfs' g hg) <| ho g (hn g hg)
      obtain ⟨hkeys, hentries⟩ := hi t' (found.append <| t'.keys f map .everywhere) hfs' hd
        (eraseDups_eraseDups _)
      constructor
      case left =>
        rw [hkeys, hs, List.flatMap_congr fun g hg => congrArg MapKeys.directKeys (hshare g hg),
          List.flatMap_congr fun g hg => congrArg MapKeys.functionKeys (hshare g hg)]
        simp only [MapKeys.append, eraseDups_append_eraseDups, List.flatMap_cons, List.append_assoc]
      case right =>
        rw [hentries, he, List.filterMap_congr hadd, List.append_assoc, List.filterMap_cons]
        cases t.addition? sources f <;> rfl

theorem settled_of_mem_files {p : Path} (hr : t.resolver.IsAbsolute)
    (h : f ∈ (t.traverse sources p).files) : t.Settled f where
  key_eq := by
    rw [key, Resolver.absolutize, Path.absolutize_of_isAbsolute (hr.files h), Path.identity_identity]
    exact (Resolver.isNormal_of_mem_files h).identity_eq
  identity_eq := (Resolver.isNormal_of_mem_files h).identity_eq

theorem keysWithIncludes_of_isAbsolute (hr : t.resolver.IsAbsolute) (sources : Sources) (p : Path)
    (map : String) (point : QueryPoint) :
    (t.keysWithIncludes sources p map point).2 =
      { directKeys   := ((t.keys p map point).directKeys ++
          (t.traverse sources p).files.flatMap (t.share sources map · |>.directKeys)).eraseDups
        functionKeys := (t.keys p map point).functionKeys ++
          (t.traverse sources p).files.flatMap (t.share sources map · |>.functionKeys) } ∧
    (t.keysWithIncludes sources p map point).1.scripts.entries =
      t.scripts.entries ++ (t.traverse sources p).files.filterMap (t.addition? sources) :=
  collect_eq sources map (t.traverse sources p).files t (t.keys p map point)
    (fun _ hf => settled_of_mem_files hr hf) Resolver.pairwise_files (t.eraseDups_directKeys p map point)

-- With settings that do not depend on the working directory, a question across includes finds the keys
-- of the tracked script, then those of the included files in the order in which they are entered. It
-- leaves one more entry for each included file that was not tracked and can be read.
theorem Reached.keysWithIncludes_eq {workingDir : Path} (h : t.Reached workingDir)
    (hw : workingDir.isAbsolute) (hroot : ∀ root ∈ t.config.workspaceRoot, root.isAbsolute)
    (hdirs : ∀ dir ∈ t.config.includePaths, dir.isAbsolute) (sources : Sources) (p : Path)
    (map : String) (point : QueryPoint) :
    (t.keysWithIncludes sources p map point).2.directKeys =
      ((t.keys p map point).directKeys ++
        (t.traverse sources p).files.flatMap (t.share sources map · |>.directKeys)).eraseDups ∧
    (t.keysWithIncludes sources p map point).2.functionKeys =
      (t.keys p map point).functionKeys ++
        (t.traverse sources p).files.flatMap (t.share sources map · |>.functionKeys) ∧
    (t.keysWithIncludes sources p map point).1.scripts.entries =
      t.scripts.entries ++ (t.traverse sources p).files.filterMap (t.addition? sources) ∧
    (t.traverse sources p).files.Pairwise (¬· == ·) ∧
    (t.keysWithIncludes sources p map point).1.config = t.config ∧
    (t.keysWithIncludes sources p map point).1.resolver = t.resolver := by
  have ⟨hkeys, hentries⟩ :=
    keysWithIncludes_of_isAbsolute (h.isAbsolute hw hroot hdirs) sources p map point
  have ⟨hconfig, hresolver⟩ := collect_preserves sources t map (t.traverse sources p).files
    (t.keys p map point)
  exact ⟨hkeys ▸ rfl, hkeys ▸ rfl, hentries, Resolver.pairwise_files, hconfig, hresolver⟩

-- A script that is edited in the workspace `/ws`, and a file there that it includes. The file is read
-- and tracked, and the directive that leads nowhere makes no difference.
theorem keysWithIncludes_edited :
    let text := "#include \"lib.au3\"\n#include \"none.au3\"\n$m.a = 1\n"
    let t := (create (.ofText "/") { workspaceRoot := some (.ofText "/ws") }).update
      (.ofText "main.au3") text
    let sources := (MemoryFiles.write {} (.ofText "/ws/lib.au3") "$m.b = 2\n$m.a = 3\n").sources
    let answer := t.keysWithIncludes sources (.ofText "main.au3") "$m" .everywhere
    answer.2.directKeys = ["a", "b"] ∧ answer.1.scripts.entries.map (fun e => (e.1.text, e.2.source)) =
      [("/ws/main.au3", text), ("/ws/lib.au3", "$m.b = 2\n$m.a = 3\n")] := by
  intro text t sources answer
  have hr : t.Reached (.ofText "/") := .update _ _ <| .create _
  have ⟨hkeys, _, hentries, _⟩ := hr.keysWithIncludes_eq (by decide +kernel) (by decide +kernel)
    (by decide +kernel) sources (.ofText "main.au3") "$m" .everywhere
  rw [hkeys, hentries, traverse, Resolver.traverse_eq_advance 5 (by decide +kernel)]
  decide +kernel

end Tracker

end ScriptMaps
