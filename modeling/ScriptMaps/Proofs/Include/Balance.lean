import ScriptMaps.Proofs.Include.Reachability

namespace ScriptMaps

namespace Sources

variable {sources : Sources} {p : Path}

-- The directives of a file; none if it is not there or cannot be read.
def directives (sources : Sources) (p : Path) : List Include :=
  if sources.isFile p then
    match sources.read p with
    | .ok text => Include.ofText text
    | .error _ => []
  else []

-- The failure to read a file that is there.
def failure? (sources : Sources) (p : Path) : Option ReadFailure :=
  if sources.isFile p then
    match sources.read p with
    | .ok _    => none
    | .error e => some ⟨p, e.message⟩
  else none

theorem read_ok {text : String} (hf : sources.isFile p) (ht : sources.read p = .ok text) :
    sources.directives p = Include.ofText text ∧ sources.failure? p = none := by
  simp [directives, failure?, hf, ht]

theorem read_error {e : ReadError} (hf : sources.isFile p) (he : sources.read p = .error e) :
    sources.directives p = [] ∧ sources.failure? p = some ⟨p, e.message⟩ := by
  simp [directives, failure?, hf, he]

theorem not_isFile (hf : ¬sources.isFile p) : sources.directives p = [] ∧ sources.failure? p = none := by
  simp [directives, failure?, hf]

theorem mem_directives_of_holds {d : Include} (h : sources.Holds p d) : d ∈ sources.directives p := by
  have ⟨hf, text, ht, hd⟩ := h
  rwa [(read_ok hf ht).left]

theorem path_of_failure? {f : ReadFailure} (h : sources.failure? p = some f) : f.path = p := by
  simp only [failure?] at h
  split at h <;> try split at h
  all_goals cases h
  rfl

end Sources

namespace Walk

variable {r : Resolver} {sources : Sources} {w w' : Walk}

-- The directives of the files entered are those that have been dealt with and those that are pending on
-- the way, and the failures are those of the files entered.
structure Balanced (sources : Sources) (w : Walk) : Prop where
  directives : (w.record.entered.map (sources.directives · |>.length)).sum =
    w.record.edges.length + w.record.unresolved.length + w.record.revisited + w.record.truncated +
      (w.stack.map (·.pending.length)).sum
  failures   : w.record.readFailures = w.record.entered.filterMap sources.failure?

-- What is recorded about a directive is what it resolves to.
structure Resolved (r : Resolver) (sources : Sources) (w : Walk) : Prop where
  edges      : ∀ e ∈ w.record.edges, e.directive ∈ sources.directives e.source ∧
    r.resolve sources e.source e.directive = .found e.target
  unresolved : ∀ u ∈ w.record.unresolved, u.directive ∈ sources.directives u.source ∧
    r.resolve sources u.source u.directive = .missing u.searched

theorem Step.balanced (s : Step r sources w w') (h : w.Balanced sources) : w'.Balanced sources := by
  have ⟨hd, hf⟩ := h
  cases s
  case enter record _ _ _ _ _ _ target _ hres _ _ ht =>
    obtain ⟨hd', hf'⟩ := Sources.read_ok (Resolver.isFile_of_resolve hres) ht
    constructor
    case directives => simp [Traversal.entered, hd'] at hd ⊢; omega
    case failures =>
      change record.readFailures = (record.entered ++ [target]).filterMap sources.failure?
      simpa [List.filterMap_append, hf'] using hf
  case fail record _ _ _ _ _ _ target e hres _ _ he =>
    obtain ⟨hd', hf'⟩ := Sources.read_error (Resolver.isFile_of_resolve hres) he
    constructor
    case directives => simp [Traversal.entered, hd'] at hd ⊢; omega
    case failures =>
      change record.readFailures ++ [⟨target, e.message⟩] =
        (record.entered ++ [target]).filterMap sources.failure?
      simpa [List.filterMap_append, hf'] using hf
  all_goals
    refine ⟨?_, hf⟩
    simp [Traversal.entered] at hd ⊢
    omega

namespace Resolved

variable {path target : Path} {directive : Include}

theorem extend (h : w.Resolved r sources) (hd : directive ∈ sources.directives path)
    (hres : r.resolve sources path directive = .found target)
    (he : w'.record.edges = w.record.edges ++ [⟨path, target, directive⟩])
    (hu : w'.record.unresolved = w.record.unresolved) : w'.Resolved r sources where
  edges      := he ▸ List.forall_mem_append.mpr ⟨h.edges, List.forall_mem_singleton.mpr ⟨hd, hres⟩⟩
  unresolved := hu ▸ h.unresolved

end Resolved

theorem Step.resolved (s : Step r sources w w') (hp : w.Placed r sources) (h : w.Resolved r sources) :
    w'.Resolved r sources := by
  -- What is pending on top of the stack are directives of the file there.
  have htop {path : Path} {depth : Nat} {directive : Include} {pending : List Include}
      (hs : ⟨path, depth, directive :: pending⟩ ∈ w.stack) : directive ∈ sources.directives path :=
    Sources.mem_directives_of_holds <| (hp.frames _ hs).holds directive (.head _)
  cases s
  case miss hres =>
    exact ⟨h.edges, List.forall_mem_append.mpr ⟨h.unresolved,
      List.forall_mem_singleton.mpr ⟨htop (.head _), hres⟩⟩⟩
  case enter hres _ _ _ => exact h.extend (htop <| .head _) hres rfl rfl
  case fail hres _ _ _  => exact h.extend (htop <| .head _) hres rfl rfl
  all_goals exact ⟨h.edges, h.unresolved⟩

theorem balanced_start (sources : Sources) (root : Path) : (start sources root).Balanced sources := by
  rw [start, Walk.enter]
  split
  case isFalse hf =>
    obtain ⟨hd, hf⟩ := Sources.not_isFile hf
    exact ⟨by simp [Traversal.entered, hd], by simp [Traversal.entered, hf]⟩
  case isTrue hf =>
    split
    case h_1 ht =>
      obtain ⟨hd, hf⟩ := Sources.read_ok hf ht
      exact ⟨by simp [Traversal.entered, hd], by simp [Traversal.entered, hf]⟩
    case h_2 he =>
      obtain ⟨hd, hf⟩ := Sources.read_error hf he
      exact ⟨by simp [Traversal.entered, hd], by simp [Traversal.entered, hf]⟩

theorem resolved_start (sources : Sources) (root : Path) : (start sources root).Resolved r sources := by
  rw [start, Walk.enter]
  split <;> try split
  all_goals exact ⟨by simp, by simp⟩

end Walk

namespace Resolver

-- Each directive of the root and of the files entered is counted once, with what it resolves to where it
-- is recorded, and each of these files that is there and cannot be read is recorded once.
theorem directives_accounted (r : Resolver) (sources : Sources) (file : Path) :
    let t := r.traverse sources file
    ((r.absolutize file :: t.files).map (sources.directives · |>.length)).sum =
      t.edges.length + t.unresolved.length + t.revisited + t.truncated ∧
    (∀ e ∈ t.edges, e.directive ∈ sources.directives e.source ∧
      r.resolve sources e.source e.directive = .found e.target) ∧
    (∀ u ∈ t.unresolved, u.directive ∈ sources.directives u.source ∧
      r.resolve sources u.source u.directive = .missing u.searched) ∧
    t.readFailures = (r.absolutize file :: t.files).filterMap sources.failure? ∧
    (t.readFailures.map (·.path)).Nodup := by
  intro t
  have ⟨_, hb, hr⟩ := Walk.run_preserves
    (p := fun w => w.Sound r sources ∧ w.Balanced sources ∧ w.Resolved r sources)
    (fun s h => ⟨s.sound h.left, s.balanced h.right.left, s.resolved h.left.placed h.right.right⟩)
    ⟨Walk.sound_start <| Path.identity_absolutize .., Walk.balanced_start sources (r.absolutize file),
      Walk.resolved_start sources (r.absolutize file)⟩
  have hent : t.entered = r.absolutize file :: t.files := by
    rw [Traversal.entered, r.root_traverse sources file]
  have hfailures : t.readFailures = t.entered.filterMap sources.failure? := hb.failures
  refine ⟨?count, hr.edges, hr.unresolved, hent ▸ hfailures, ?once⟩
  case count =>
    have h := hb.directives
    rw [Walk.stack_run, List.map_nil, List.sum_nil, Nat.add_zero] at h
    exact hent ▸ h
  case once =>
    rw [hfailures, List.map_filterMap]
    refine nodup_entered.filterMap ?_
    intro p q path hp hq
    obtain ⟨_, hf, hp⟩ := Option.map_eq_some_iff.mp hp
    obtain ⟨_, hf', hq⟩ := Option.map_eq_some_iff.mp hq
    rw [← Sources.path_of_failure? hf, ← Sources.path_of_failure? hf', hp, hq]

end Resolver

-- One directive of each kind: two that lead to new files, of which one cannot be read, one that leads
-- nowhere, one that leads back to the root and one that is cut off.
theorem directives_accounted_mixed :
    let r := Resolver.mk (.ofText "/") none [] 1
    let m : MemoryFiles :=
      { texts  := ⟨[(.ofText "/a", "#include \"b\"\n#include \"x\"\n#include \"d\"\n#include \"a\"\n"),
          (.ofText "/b", "#include \"c\"\n"), (.ofText "/c", "")]⟩
        locked := [.ofText "/d"] }
    let t := r.traverse m.sources (.ofText "/a")
    t.edges.length = 2 ∧ t.unresolved.length = 1 ∧ t.revisited = 1 ∧ t.truncated = 1 ∧
    ((r.absolutize (.ofText "/a") :: t.files).map (m.sources.directives · |>.length)).sum = 5 ∧
    (∃ e ∈ t.edges, e.target.text = "/d" ∧
      r.resolve m.sources e.source e.directive = .found e.target) ∧
    (∃ u ∈ t.unresolved, u.searched.map (·.text) = ["/x"] ∧
      r.resolve m.sources u.source u.directive = .missing u.searched) ∧
    t.readFailures = (r.absolutize (.ofText "/a") :: t.files).filterMap m.sources.failure? ∧
    t.readFailures.map (fun f => (f.path.text, f.reason)) = [("/d", "locked")] := by
  intro r m t
  have ⟨hsum, hedges, hunresolved, hfailures, _⟩ := r.directives_accounted m.sources (.ofText "/a")
  have ht : t = _ := Resolver.traverse_eq_advance 12 (by decide +kernel)
  have hcounts : t.edges.length = 2 ∧ t.unresolved.length = 1 ∧ t.revisited = 1 ∧ t.truncated = 1 ∧
      t.readFailures.map (fun f => (f.path.text, f.reason)) = [("/d", "locked")] := by
    rw [ht]
    decide +kernel
  have ⟨e, he, htarget⟩ : ∃ e ∈ t.edges, e.target.text = "/d" := by
    rw [ht]
    decide +kernel
  have ⟨u, hu, hsearched⟩ : ∃ u ∈ t.unresolved, u.searched.map (·.text) = ["/x"] := by
    rw [ht]
    decide +kernel
  have ⟨h₁, h₂, h₃, h₄, hlocked⟩ := hcounts
  exact ⟨h₁, h₂, h₃, h₄, by rw [hsum, h₁, h₂, h₃, h₄], ⟨e, he, htarget, (hedges e he).right⟩,
    ⟨u, hu, hsearched, (hunresolved u hu).right⟩, hfailures, hlocked⟩

end ScriptMaps
