import ScriptMaps.Proofs.Tracker.Includes

namespace ScriptMaps

namespace Resolver

variable {r : Resolver} {sources : Sources} {file : Path}

-- The same settings with another depth.
def atDepth (r : Resolver) (depth : Nat) : Resolver :=
  { r with maxDepth := depth }

@[simp]
theorem absolutize_atDepth (r : Resolver) (depth : Nat) (p : Path) :
    (r.atDepth depth).absolutize p = r.absolutize p :=
  rfl

theorem resolve_atDepth (r : Resolver) (depth : Nat) (f : Path) (d : Include) :
    (r.atDepth depth).resolve sources f d = r.resolve sources f d := by
  simp only [resolve, candidates, atDepth]

theorem includes_atDepth (r : Resolver) (depth : Nat) {f g : Path} :
    (r.atDepth depth).Includes sources f g ↔ r.Includes sources f g := by
  simp only [Includes, resolve_atDepth]

-- The file `f` lies within the depth `shallow` of one walk and at the full depth of the other, which
-- goes `deep` and therefore does not follow a directive of `f` that leads to `g` and on to `p`.
structure Detour (r : Resolver) (sources : Sources) (file : Path) (shallow deep : Nat) (f g p : Path) :
    Prop where
  within    : ∃ n < shallow, ((r.atDepth shallow).traverse sources file).LiesAt n f
  full      : ((r.atDepth deep).traverse sources file).LiesAt deep f
  truncated : 0 < ((r.atDepth deep).traverse sources file).truncated
  includes  : r.Includes sources f g
  missed    : g ∉ ((r.atDepth deep).traverse sources file).entered
  leads     : Relation.ReflTransGen (r.Includes sources) g p

theorem Detour.tail {shallow deep : Nat} {f g p q : Path} (h : r.Detour sources file shallow deep f g p)
    (hq : r.Includes sources p q) : r.Detour sources file shallow deep f g q :=
  { h with leads := h.leads.tail hq }

-- The induction goes down the tree of the shallow walk: as long as the deep walk has been in a file, it
-- comes to what the file includes, unless the file is at its full depth.
theorem mem_entered_or_detour (deep : Nat) {shallow n : Nat} {p : Path}
    (h : ((r.atDepth shallow).traverse sources file).LiesAt n p) (hn : n ≤ shallow) :
    p ∈ ((r.atDepth deep).traverse sources file).entered ∨
      ∃ f g, r.Detour sources file shallow deep f g p := by
  induction h
  case root => exact .inl <| by simp [Traversal.entered, root_traverse]
  case edge n e hl he hi =>
    have hg := (r.includes_atDepth shallow).mp <| includes_of_mem_edges he
    cases hi <| Nat.le_of_succ_le hn
    case inr h =>
      obtain ⟨f, g, hd⟩ := h
      exact .inr ⟨f, g, hd.tail hg⟩
    case inl hs =>
      by_cases hm : e.target ∈ ((r.atDepth deep).traverse sources file).entered
      case pos => exact .inl hm
      case neg =>
        have hg' := (r.includes_atDepth deep).mpr hg
        obtain ⟨hd, ht⟩ := (mem_entered_of_includes hs hg').resolve_left hm
        exact .inr ⟨e.source, e.target, ⟨n, hn, hl⟩, hd, ht, hg, hm, .refl⟩

theorem mem_files_or_detour (deep : Nat) {shallow : Nat} {p : Path}
    (h : p ∈ ((r.atDepth shallow).traverse sources file).files) :
    p ∈ ((r.atDepth deep).traverse sources file).files ∨
      ∃ f g, r.Detour sources file shallow deep f g p := by
  have ⟨n, hn, hl⟩ := liesAt_of_mem_files h
  refine (mem_entered_or_detour deep hl hn).imp_left ?_
  intro hm
  have hr : p ≠ r.absolutize file := by
    rintro rfl
    have hroot := root_traverse (r.atDepth shallow) sources file
    exact (List.nodup_cons.mp nodup_entered).left <| hroot ▸ h
  exact (List.mem_cons.mp hm).resolve_left <| root_traverse (r.atDepth deep) sources file ▸ hr

end Resolver

namespace Tracker

variable {workingDir : Path} {sources : Sources} {map : String} {t : Tracker} {f p : Path}
variable {point : QueryPoint}

-- The tracker when it is told to follow includes one level deeper.
def deepen (t : Tracker) : Tracker :=
  t.reconfigure { t.config with maxDepth := t.config.maxDepth + 1 }

theorem deepen_eq (t : Tracker) :
    t.deepen =
      { t with
        config   := { t.config with maxDepth := t.config.maxDepth + 1 }
        resolver := .ofConfig t.resolver.workingDir
          { t.config with maxDepth := t.config.maxDepth + 1 } } := by
  simp [deepen, reconfigure, Config.withPositiveDepth, Config.differs]

-- A file that a detour cuts off when includes are followed one level deeper.
def CutOff (t : Tracker) (sources : Sources) (p file : Path) : Prop :=
  ∃ f g, t.resolver.Detour (sources.under t.scripts) p t.config.maxDepth (t.config.maxDepth + 1) f g file

theorem share_deepen (t : Tracker) : t.deepen.share sources map f = t.share sources map f := by
  simp [deepen_eq, share]

namespace Reached

theorem deepen (h : t.Reached workingDir) : t.deepen.Reached workingDir :=
  .reconfigure _ h

theorem resolver_atDepth (h : t.Reached workingDir) :
    t.resolver.atDepth t.config.maxDepth = t.resolver := by
  rw [h.resolver_eq]
  rfl

theorem resolver_deepen (h : t.Reached workingDir) :
    t.deepen.resolver = t.resolver.atDepth (t.config.maxDepth + 1) := by
  rw [h.deepen.resolver_eq, h.resolver_eq, deepen_eq]
  rfl

theorem keys_deepen (h : t.Reached workingDir) : t.deepen.keys p map point = t.keys p map point := by
  have hk : t.deepen.key p = t.key p := by rw [key, h.resolver_deepen, Resolver.absolutize_atDepth, key]
  have hs : t.deepen.script? p = t.script? p := by rw [script?, hk, deepen_eq, script?]
  rw [keys, hs, keys]

theorem mem_traverse_deepen (h : t.Reached workingDir) (hf : f ∈ (t.traverse sources p).files) :
    f ∈ (t.deepen.traverse sources p).files ∨ t.CutOff sources p f := by
  have hs : t.deepen.scripts = t.scripts := by rw [deepen_eq]
  rw [traverse, h.resolver_deepen, hs]
  rw [traverse, ← h.resolver_atDepth] at hf
  exact Resolver.mem_files_or_detour _ hf

-- Both parts of an answer are made of what the tracked script and the included files have of it.
theorem mem_part_deepen {α : Type} (h : t.Reached workingDir) (part : MapKeys → List α) {key : α}
    (hk : key ∈ part (t.keys p map point) ∨
      ∃ f ∈ (t.traverse sources p).files, key ∈ part (t.share sources map f)) :
    (key ∈ part (t.deepen.keys p map point) ∨
      ∃ f ∈ (t.deepen.traverse sources p).files, key ∈ part (t.deepen.share sources map f)) ∨
    ∃ f, t.CutOff sources p f ∧ key ∈ part (t.share sources map f) := by
  cases hk
  case inl hk => exact .inl <| .inl <| h.keys_deepen.symm ▸ hk
  case inr hk =>
    have ⟨f, hf, hk⟩ := hk
    cases h.mem_traverse_deepen hf
    case inl hf => exact .inl <| .inr ⟨f, hf, t.share_deepen.symm ▸ hk⟩
    case inr hc => exact .inr ⟨f, hc, hk⟩

end Reached

theorem mem_directKeys (hr : t.resolver.IsAbsolute) {key : String} :
    key ∈ (t.keysWithIncludes sources p map point).2.directKeys ↔
      key ∈ (t.keys p map point).directKeys ∨
        ∃ f ∈ (t.traverse sources p).files, key ∈ (t.share sources map f).directKeys := by
  rw [(keysWithIncludes_of_isAbsolute hr sources p map point).left]
  simp

theorem mem_functionKeys (hr : t.resolver.IsAbsolute) {key : FunctionKey} :
    key ∈ (t.keysWithIncludes sources p map point).2.functionKeys ↔
      key ∈ (t.keys p map point).functionKeys ∨
        ∃ f ∈ (t.traverse sources p).files, key ∈ (t.share sources map f).functionKeys := by
  rw [(keysWithIncludes_of_isAbsolute hr sources p map point).left]
  simp

end Tracker

-- A walk that may go one level deeper enters all files that it entered before, but for those that a
-- detour cuts off, and a question across includes finds all keys that it found before, but for those of
-- such files. Keys are followed for settings that do not depend on the working directory, where a file
-- that is listed is not mistaken for another one.
theorem mem_deeper_or_detour :
    (∀ (r : Resolver) (sources : Sources) (file : Path) (k : Nat),
      ∀ p ∈ ((r.atDepth k).traverse sources file).files,
        p ∈ ((r.atDepth (k + 1)).traverse sources file).files ∨
          ∃ f g, r.Detour sources file k (k + 1) f g p) ∧
    ∀ (workingDir : Path) (t : Tracker), t.Reached workingDir → workingDir.isAbsolute →
      (∀ root ∈ t.config.workspaceRoot, root.isAbsolute) →
      (∀ dir ∈ t.config.includePaths, dir.isAbsolute) →
      ∀ (sources : Sources) (p : Path) (map : String) (point : QueryPoint),
        (∀ key ∈ (t.keysWithIncludes sources p map point).2.directKeys,
          key ∈ (t.deepen.keysWithIncludes sources p map point).2.directKeys ∨
            ∃ f, t.CutOff sources p f ∧ key ∈ (t.share sources map f).directKeys) ∧
        ∀ key ∈ (t.keysWithIncludes sources p map point).2.functionKeys,
          key ∈ (t.deepen.keysWithIncludes sources p map point).2.functionKeys ∨
            ∃ f, t.CutOff sources p f ∧ key ∈ (t.share sources map f).functionKeys := by
  refine ⟨fun _ _ _ k _ hp => Resolver.mem_files_or_detour (k + 1) hp, ?keys⟩
  case keys =>
    intro workingDir t h hw hroot hdirs sources p map point
    have hr := h.isAbsolute hw hroot hdirs
    have hr' : t.deepen.resolver.IsAbsolute :=
      h.resolver_deepen ▸ ⟨hr.workingDir, hr.workspaceRoot, hr.includePaths⟩
    constructor
    case left =>
      intro key hk
      rw [Tracker.mem_directKeys hr']
      exact h.mem_part_deepen MapKeys.directKeys <| (Tracker.mem_directKeys hr).mp hk
    case right =>
      intro key hk
      rw [Tracker.mem_functionKeys hr']
      exact h.mem_part_deepen MapKeys.functionKeys <| (Tracker.mem_functionKeys hr).mp hk

section Losses

def filesOf (texts : List (String × String)) : Sources :=
  texts.foldl (fun m e => m.write (.ofText e.1) e.2) ({} : MemoryFiles) |>.sources

-- There are two ways from `/a` to `/d`, and the longer one comes first. At a depth of two it ends
-- before `/d`, so that the shorter one leads to `/d` and on to `/e`. At a depth of three it ends there.
def twoWays : Sources :=
  filesOf [
    ("/a", "#include \"b\"\n#include \"d\"\n"),
    ("/b", "#include \"c\"\n"),
    ("/c", "#include \"d\"\n"),
    ("/d", "#include \"e\"\n"),
    ("/e", "$m.x = 1\n")]

def twoWaysTracker : Tracker :=
  .create (.ofText "/") { maxDepth := 2 }

-- The library `l` is not at an absolute path, so `l/c` and `/w/l/c` are two files that are tracked at
-- one path. Which of them comes first depends on the depth.
def twoNames : Sources :=
  filesOf [
    ("/w/a", "#include \"b\"\n#include <c>\n#include \"l/c\"\n"),
    ("/w/b", "#include \"l/c\"\n"),
    ("l/c", "$m.x = 1\n"),
    ("/w/l/c", "$m.y = 1\n")]

def twoNamesTracker : Tracker :=
  .create (.ofText "/")
    { workspaceRoot := some (.ofText "/w"), includePaths := [.ofText "l"], maxDepth := 1 }

theorem mem_files_twoWays :
    .ofText "/e" ∈ ((twoWaysTracker.resolver.atDepth 2).traverse twoWays (.ofText "/a")).files := by
  rw [Traversal.mem_files_iff_text, Resolver.traverse_eq_advance 20 (by decide +kernel)]
  decide +kernel

theorem not_mem_files_twoWays :
    .ofText "/e" ∉ ((twoWaysTracker.resolver.atDepth 3).traverse twoWays (.ofText "/a")).files := by
  rw [Traversal.mem_files_iff_text, Resolver.traverse_eq_advance 20 (by decide +kernel)]
  decide +kernel

-- A file is lost by a detour, and a key without one.
theorem deeper_loses_file_and_key :
    ¬(∀ p ∈ ((twoWaysTracker.resolver.atDepth 2).traverse twoWays (.ofText "/a")).files,
      p ∈ ((twoWaysTracker.resolver.atDepth 3).traverse twoWays (.ofText "/a")).files) ∧
    (twoNamesTracker.deepen.traverse twoNames (.ofText "/w/a")).truncated = 0 ∧
    ¬(∀ key ∈ (twoNamesTracker.keysWithIncludes twoNames (.ofText "/w/a") "$m"
        .everywhere).2.directKeys,
      key ∈ (twoNamesTracker.deepen.keysWithIncludes twoNames (.ofText "/w/a") "$m"
        .everywhere).2.directKeys) := by
  refine ⟨fun h => not_mem_files_twoWays <| h _ mem_files_twoWays, ?_⟩
  simp only [Tracker.keysWithIncludes, Tracker.traverse]
  rw [Resolver.traverse_eq_advance 20 (by decide +kernel),
    Resolver.traverse_eq_advance 20 (by decide +kernel)]
  decide +kernel

-- The detour of the first loss, for the file and for the key that it assigns.
theorem detour_twoWays :
    (∃ f g, twoWaysTracker.resolver.Detour twoWays (.ofText "/a") 2 3 f g (.ofText "/e")) ∧
    ∃ f, twoWaysTracker.CutOff twoWays (.ofText "/a") f ∧
      "x" ∈ (twoWaysTracker.share twoWays "$m" f).directKeys := by
  have ⟨hfiles, hkeys⟩ := mem_deeper_or_detour
  have ⟨hdirect, _⟩ := hkeys (.ofText "/") twoWaysTracker (.create _) (by decide +kernel)
    (by decide +kernel) (by decide +kernel) twoWays (.ofText "/a") "$m" .everywhere
  have hfound :
      "x" ∈ (twoWaysTracker.keysWithIncludes twoWays (.ofText "/a") "$m" .everywhere).2.directKeys := by
    rw [Tracker.keysWithIncludes, Tracker.traverse, Resolver.traverse_eq_advance 20 (by decide +kernel)]
    decide +kernel
  have hlost : "x" ∉ (twoWaysTracker.deepen.keysWithIncludes twoWays (.ofText "/a") "$m"
      .everywhere).2.directKeys := by
    rw [Tracker.keysWithIncludes, Tracker.traverse, Resolver.traverse_eq_advance 20 (by decide +kernel)]
    decide +kernel
  exact ⟨(hfiles _ _ _ 2 _ mem_files_twoWays).resolve_left not_mem_files_twoWays,
    (hdirect "x" hfound).resolve_left hlost⟩

end Losses

end ScriptMaps
