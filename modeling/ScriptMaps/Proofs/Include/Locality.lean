import ScriptMaps.Proofs.Include.Reachability

namespace ScriptMaps

-- Two outcomes of reading that a walk cannot tell apart: failures for the same reason, or texts with the
-- same directives.
inductive Sources.ReadAlike : Except ReadError String → Except ReadError String → Prop
  | error {e e'} (reason : e.message = e'.message) : ReadAlike (.error e) (.error e')
  | ok {text text'} (directives : Include.ofText text = Include.ofText text') :
    ReadAlike (.ok text) (.ok text')

open Sources (ReadAlike)

theorem Sources.ReadAlike.refl (outcome : Except ReadError String) : ReadAlike outcome outcome := by
  cases outcome
  case error => exact .error rfl
  case ok    => exact .ok rfl

variable {a b : Sources}

theorem Resolver.resolve_congr (h : ∀ p : Path, p.identity = p → a.isFile p = b.isFile p)
    (r : Resolver) (file : Path) (directive : Include) :
    r.resolve a file directive = r.resolve b file directive := by
  have hf : (r.places file directive).find? a.isFile = (r.places file directive).find? b.isFile := by
    rw [← List.head?_filter, ← List.head?_filter]
    refine congrArg List.head? <| List.filter_congr ?_
    intro p hp
    have ⟨_, _, hn⟩ := candidate_of_mem_places hp
    exact h p (Path.isNormal_of_normalize? hn).identity_eq
  simp only [resolve_eq, hf]

namespace Walk

variable {r : Resolver} {w w' : Walk} {path : Path} {depth : Nat}

theorem enter_congr (hf : a.isFile path = b.isFile path) (hr : ReadAlike (a.read path) (b.read path)) :
    w.enter a path depth = w.enter b path depth := by
  rw [enter, enter, hf]
  split
  case isFalse => rfl
  case isTrue =>
    generalize a.read path = x at hr
    generalize b.read path = y at hr
    cases hr
    case error hm => simp only [hm]
    case ok hd    => simp only [hd]

theorem entered_enter (w : Walk) (sources : Sources) (path : Path) (depth : Nat) :
    (w.enter sources path depth).record.entered = w.record.entered := by
  rw [enter]
  split
  case isFalse => rfl
  case isTrue  => split <;> rfl

-- The one file that is read when a directive is followed is listed then.
theorem follow_congr {directive : Include}
    (hf : ∀ p : Path, p.identity = p → a.isFile p = b.isFile p)
    (hr : ∀ p ∈ (w.follow r a path depth directive).record.entered, ReadAlike (a.read p) (b.read p)) :
    w.follow r a path depth directive = w.follow r b path depth directive := by
  have hb := r.resolve_congr hf path directive
  cases ha : r.resolve a path directive
  case missing => simp only [follow, ha, hb ▸ ha]
  case found target =>
    simp only [follow, ha, hb ▸ ha] at hr ⊢
    split
    case isTrue => rfl
    case isFalse hv =>
      split
      case isTrue => rfl
      case isFalse hd =>
        apply enter_congr <| hf target (Resolver.isNormal_of_resolve ha).identity_eq
        apply hr
        rw [if_neg hv, if_neg hd, entered_enter]
        simp [visit, Traversal.entered]

theorem step?_congr (hf : ∀ p : Path, p.identity = p → a.isFile p = b.isFile p)
    (h : w.step? r a = some w') (hr : ∀ p ∈ w'.record.entered, ReadAlike (a.read p) (b.read p)) :
    w.step? r b = some w' := by
  rw [step?] at h ⊢
  split at h
  case h_1 => exact h
  case h_2 => exact h
  case h_3 =>
    cases h
    exact congrArg some (follow_congr hf hr).symm

theorem entered_subset_run (w : Walk) (r : Resolver) (sources : Sources) :
    w.record.entered ⊆ (w.run r sources).record.entered :=
  run_preserves (p := (w.record.entered ⊆ ·.record.entered))
    (fun s h => List.Subset.trans h s.entered_subset) (List.Subset.refl _)

theorem run_congr (hf : ∀ p : Path, p.identity = p → a.isFile p = b.isFile p) (w : Walk) (r : Resolver)
    (hr : ∀ p ∈ (w.run r a).record.entered, ReadAlike (a.read p) (b.read p)) :
    w.run r a = w.run r b := by
  induction w using Walk.run.induct r a
  case case1 w hn =>
    have hs := step?_eq_none hn
    rw [run_of_stack_eq_nil hs, run_of_stack_eq_nil hs]
  case case2 w w' hw hi =>
    rw [run_of_step? hw] at hr
    have hw' := step?_congr hf hw fun p hp => hr p <| entered_subset_run w' r a hp
    rw [run_of_step? hw, run_of_step? hw', hi hr]

end Walk

namespace Resolver

theorem traverse_congr (r : Resolver) {file : Path}
    (hf : ∀ p : Path, p.identity = p → a.isFile p = b.isFile p)
    (hr : ∀ p ∈ (r.traverse a file).entered, ReadAlike (a.read p) (b.read p)) :
    r.traverse a file = r.traverse b file := by
  have hroot : ReadAlike (a.read <| r.absolutize file) (b.read <| r.absolutize file) := by
    apply hr
    rw [Traversal.entered, root_traverse]
    exact .head _
  have hs : Walk.start a (r.absolutize file) = Walk.start b (r.absolutize file) :=
    Walk.enter_congr (hf _ <| Path.identity_absolutize ..) hroot
  rw [traverse, Walk.run_congr hf _ r hr, hs, traverse]

end Resolver

-- Sources that show the same at every path that is its own identity. A walk asks about no other paths.
structure Sources.Agree (a b : Sources) : Prop where
  isFile : ∀ {p : Path}, p.identity = p → a.isFile p = b.isFile p
  read   : ∀ {p : Path}, p.identity = p → a.read p = b.read p

namespace Sources.Agree

theorem refl (a : Sources) : a.Agree a :=
  ⟨fun _ => rfl, fun _ => rfl⟩

theorem trans {c : Sources} (hab : a.Agree b) (hbc : b.Agree c) : a.Agree c where
  isFile hp := (hab.isFile hp).trans (hbc.isFile hp)
  read hp   := (hab.read hp).trans (hbc.read hp)

theorem traverse (h : a.Agree b) (r : Resolver) (file : Path) :
    r.traverse a file = r.traverse b file := by
  apply r.traverse_congr fun _ hp => h.isFile hp
  intro p hp
  rw [h.read <| Resolver.identity_of_mem_entered hp]
  exact .refl _

end Sources.Agree

-- Sources with the same files are followed the same way if reading the root and the files that the walk
-- enters cannot be told apart by it.
theorem Resolver.traverse_eq_of_readAlike (r : Resolver) (a b : Sources) (file : Path)
    (hf : ∀ p, a.isFile p = b.isFile p)
    (hroot : ReadAlike (a.read <| r.absolutize file) (b.read <| r.absolutize file))
    (hfiles : ∀ p ∈ (r.traverse a file).files, ReadAlike (a.read p) (b.read p)) :
    r.traverse a file = r.traverse b file := by
  apply r.traverse_congr fun p _ => hf p
  rw [Traversal.entered, root_traverse]
  exact List.forall_mem_cons.mpr ⟨hroot, hfiles⟩

-- The files `/a` and `/b` are entered. The second sources have another line in `/a` that is no directive,
-- refuse `/b` for the same reason, and have other directives in `/c`, which nothing leads to.
theorem traverse_eq_elsewhere :
    let r := Resolver.mk (.ofText "/") none [] 2
    let m (a c : String) : MemoryFiles :=
      { texts := ⟨[(.ofText "/a", a), (.ofText "/c", c)]⟩, locked := [.ofText "/b"] }
    let before := (m "#include \"b\"\n" "$m.x = 1\n").sources
    let after := (m "#include \"b\"\n$m.y = 2\n" "#include \"a\"\n").sources
    (∀ p, before.isFile p = after.isFile p) ∧
    (r.traverse before (.ofText "/a")).files.map (·.text) = ["/b"] ∧
    r.traverse before (.ofText "/a") = r.traverse after (.ofText "/a") := by
  intro r m before after
  have hf (p : Path) : before.isFile p = after.isFile p := by
    simp [before, after, m, MemoryFiles.sources, MemoryFiles.isLocked, PathTable.contains,
      PathTable.find?, List.isSome_find?]
  have hfiles : (r.traverse before (.ofText "/a")).files.map (·.text) = ["/b"] := by
    rw [Resolver.traverse_eq_advance 5 (by decide +kernel)]
    decide +kernel
  have hroot (a c : String) : (m a c).sources.read (r.absolutize <| .ofText "/a") = .ok a := by
    have hn : (r.absolutize <| .ofText "/a").identity == .ofText "/b" ↔ False := by decide +kernel
    have ha : Path.ofText "/a" == (r.absolutize <| .ofText "/a").identity := by decide +kernel
    simp [m, MemoryFiles.sources, MemoryFiles.isLocked, PathTable.find?, hn, ha]
  have hlocked (a c : String) : (m a c).sources.read (.ofText "/b") = .error .locked := by
    have hb : (Path.ofText "/b").identity == .ofText "/b" := by decide +kernel
    simp [m, MemoryFiles.sources, MemoryFiles.isLocked, hb]
  refine ⟨hf, hfiles, r.traverse_eq_of_readAlike before after (.ofText "/a") hf ?root ?files⟩
  case root =>
    rw [hroot, hroot]
    exact .ok <| by decide +kernel
  case files =>
    intro p hp
    have hp : p = .ofText "/b" := by
      simpa [hfiles, Path.ext_iff] using Traversal.mem_files_iff_text.mp hp
    rw [hp, hlocked, hlocked]
    exact .refl _

end ScriptMaps
