import ScriptMaps.Proofs.Include.Reachability
import ScriptMaps.Proofs.Script.Lines

namespace ScriptMaps

namespace Traversal

variable {root : Path} {edges : List IncludeEdge}

theorem lies_iff {n : Nat} {p : Path} :
    Lies root edges n p ↔
      n = 0 ∧ p = root ∨ ∃ m, ∃ e ∈ edges, Lies root edges m e.source ∧ n = m + 1 ∧ p = e.target := by
  constructor
  case mp =>
    intro h
    cases h
    case root          => exact .inl ⟨rfl, rfl⟩
    case edge m e h he => exact .inr ⟨m, e, he, h, rfl, rfl⟩
  case mpr =>
    rintro (⟨rfl, rfl⟩ | ⟨m, e, he, h, rfl, rfl⟩)
    case inl => exact .root
    case inr => exact .edge h he

-- A file that hangs on one directive only is reached in one way.
theorem Lies.unique {n m : Nat} {p : Path} (hd : (root :: edges.map (·.target)).Nodup)
    (h : Lies root edges n p) (h' : Lies root edges m p) : n = m := by
  have ⟨hroot, htargets⟩ := List.nodup_cons.mp hd
  induction h generalizing m
  case root =>
    cases lies_iff.mp h'
    case inl h => exact h.left.symm
    case inr h =>
      have ⟨_, e, he, _, _, ht⟩ := h
      exact absurd (ht ▸ List.mem_map_of_mem he) hroot
  case edge e _ he hi =>
    cases lies_iff.mp h'
    case inl h => exact absurd (h.right ▸ List.mem_map_of_mem he) hroot
    case inr h =>
      have ⟨_, e', he', hs, hm, ht⟩ := h
      have hee := List.inj_on_of_nodup_map htargets he he' ht
      rw [hm, hi (hee ▸ hs)]

-- Directives along which a tree grows from `root`: each leads on from the root or from where an earlier
-- one has led.
inductive Grown (root : Path) : List IncludeEdge → Prop
  | nil : Grown root []
  | snoc {edges e} : Grown root edges → e.source ∈ root :: edges.map (·.target) → Grown root (edges ++ [e])

theorem Grown.earlier (h : Grown root edges) {i : Nat} {e : IncludeEdge} (he : edges[i]? = some e) :
    e.source = root ∨ ∃ j < i, (edges.map (·.target))[j]? = some e.source := by
  induction h
  case nil => simp at he
  case snoc edges e' _ hs hi =>
    have hlt := List.getElem?_eq_some_iff.mp he |>.fst
    rw [List.length_append, List.length_singleton] at hlt
    by_cases hi' : i < edges.length
    case pos =>
      rw [List.getElem?_append_left hi'] at he
      refine (hi he).imp_right ?_
      intro ⟨j, hj, ht⟩
      exact ⟨j, hj, by rwa [List.map_append, List.getElem?_append_left (by simp; omega)]⟩
    case neg =>
      have hlast : i = edges.length := by omega
      cases hlast
      cases show e' = e by simpa using he
      refine (List.mem_cons.mp hs).imp_right ?_
      intro hm
      have ⟨j, hj⟩ := List.mem_iff_getElem?.mp hm
      have hlt := List.getElem?_eq_some_iff.mp hj |>.fst
      exact ⟨j, by simpa using hlt, by rwa [List.map_append, List.getElem?_append_left hlt]⟩

theorem Grown.source_mem (h : Grown root edges) {e : IncludeEdge} (he : e ∈ edges) :
    e.source ∈ root :: edges.map (·.target) := by
  have ⟨i, hi⟩ := List.mem_iff_getElem?.mp he
  cases h.earlier hi
  case inl h => exact h ▸ .head _
  case inr h =>
    have ⟨_, _, h⟩ := h
    exact .tail _ <| List.mem_of_getElem? h

-- What makes the record of a walk a tree below `root` that spans the files entered. Paths are told
-- apart by their components.
structure SpansTree (t : Traversal) (sources : Sources) (root : Path) (maxDepth : Nat) : Prop where
  root_eq  : t.root = root
  distinct : (root :: t.files).Pairwise (¬· == ·)
  targets  : t.files = t.edges.map (·.target)
  earlier  : ∀ (i : Nat) (e : IncludeEdge), t.edges[i]? = some e →
    e.source = root ∨ ∃ j < i, t.files[j]? = some e.source
  lines    : t.edges.Pairwise fun e e' : IncludeEdge =>
    e.source == e'.source → e.directive.line < e'.directive.line
  isFile   : ∀ p ∈ t.files, sources.isFile p
  identity : ∀ p ∈ t.files, p.identity = p
  depth    : ∀ p ∈ t.files, ∃ k, 1 ≤ k ∧ k ≤ maxDepth ∧ ∀ n, t.LiesAt n p ↔ n = k

end Traversal

namespace Walk

variable {r : Resolver} {sources : Sources} {w w' : Walk}

-- A file on the way has been entered, its pending directives are in line order, and those that led on
-- from it stand before them.
structure OrderedFrame (t : Traversal) (f : Frame) : Prop where
  entered : f.path ∈ t.entered
  sorted  : f.pending.Pairwise (·.line < ·.line)
  passed  : ∀ e ∈ t.edges, e.source = f.path → ∀ d ∈ f.pending, e.directive.line < d.line

-- The directives by which files were entered, in the order of entering. No file is on the way twice, so
-- what is pending of a file is pending in one place.
structure Ordered (w : Walk) : Prop where
  frames  : ∀ f ∈ w.stack, OrderedFrame w.record f
  apart   : (w.stack.map (·.path)).Nodup
  targets : w.record.files = w.record.edges.map (·.target)
  grown   : Traversal.Grown w.record.root w.record.edges
  lines   : w.record.edges.Pairwise fun e e' =>
    e.source = e'.source → e.directive.line < e'.directive.line

namespace OrderedFrame

variable {t t' : Traversal} {f : Frame} {e : IncludeEdge}

theorem next {path : Path} {depth : Nat} {directive : Include} {pending : List Include}
    (h : OrderedFrame t ⟨path, depth, directive :: pending⟩) : OrderedFrame t ⟨path, depth, pending⟩ where
  entered             := h.entered
  sorted              := h.sorted.of_cons
  passed e he hs d hd := h.passed e he hs d <| .tail _ hd

theorem extend (h : OrderedFrame t f) (hent : t.entered ⊆ t'.entered) (he : t'.edges = t.edges ++ [e])
    (hn : e.source = f.path → ∀ d ∈ f.pending, e.directive.line < d.line) : OrderedFrame t' f where
  entered := hent h.entered
  sorted  := h.sorted
  passed  := by
    rw [he]
    exact List.forall_mem_append.mpr ⟨h.passed, List.forall_mem_singleton.mpr hn⟩

end OrderedFrame

namespace Ordered

variable {path target : Path} {depth : Nat} {directive : Include} {pending : List Include}
variable {stack : List Frame}

theorem source_mem (h : w.Ordered) {e : IncludeEdge} (he : e ∈ w.record.edges) :
    e.source ∈ w.record.entered := by
  rw [Traversal.entered, h.targets]
  exact h.grown.source_mem he

theorem next (h : w.Ordered) (hs : w.stack = ⟨path, depth, directive :: pending⟩ :: stack)
    (hr : w'.record.root = w.record.root) (hf : w'.record.files = w.record.files)
    (he : w'.record.edges = w.record.edges) (hw : w'.stack = ⟨path, depth, pending⟩ :: stack) :
    w'.Ordered := by
  have hent : w'.record.entered = w.record.entered := by simp [Traversal.entered, hr, hf]
  have hcongr {f : Frame} (h : OrderedFrame w.record f) : OrderedFrame w'.record f :=
    ⟨hent ▸ h.entered, h.sorted, he ▸ h.passed⟩
  refine ⟨?frames, ?apart, hf ▸ he ▸ h.targets, hr ▸ he ▸ h.grown, he ▸ h.lines⟩
  case frames =>
    intro f hm
    apply hcongr
    cases hw ▸ hm
    case head    => exact (h.frames _ <| hs ▸ List.mem_cons_self).next
    case tail hm => exact h.frames f <| hs ▸ .tail _ hm
  case apart => simpa [hs, hw] using h.apart

-- The directive that is taken off the file on top of the stack stands after all that led on from the
-- file, and before all that is still pending of it.
theorem extend (h : w.Ordered) (hs : w.stack = ⟨path, depth, directive :: pending⟩ :: stack)
    (hr : w'.record.root = w.record.root) (hf : w'.record.files = w.record.files ++ [target])
    (he : w'.record.edges = w.record.edges ++ [⟨path, target, directive⟩])
    (hw : w'.stack = ⟨path, depth, pending⟩ :: stack) : w'.Ordered := by
  have htop := h.frames ⟨path, depth, directive :: pending⟩ (by simp [hs])
  have hent : w.record.entered ⊆ w'.record.entered := by simp [Traversal.entered, hr, hf]
  have hapart : path ∉ stack.map (·.path) ∧ (stack.map (·.path)).Nodup := by
    simpa [hs] using h.apart
  refine ⟨?frames, ?apart, ?targets, ?grown, ?lines⟩
  case frames =>
    intro f hm
    cases hw ▸ hm
    case head =>
      apply htop.next.extend hent he
      intro _ d hd
      exact List.rel_of_pairwise_cons htop.sorted hd
    case tail hm =>
      apply (h.frames f <| hs ▸ .tail _ hm).extend hent he
      intro (hpath : path = f.path)
      exact absurd (hpath ▸ List.mem_map_of_mem hm) hapart.left
  case apart   => simpa [hw] using hapart
  case targets => simp [hf, he, h.targets]
  case grown =>
    rw [hr, he]
    apply h.grown.snoc
    rw [← h.targets]
    exact htop.entered
  case lines =>
    rw [he]
    refine List.pairwise_append.mpr ⟨h.lines, List.pairwise_singleton .., ?_⟩
    intro e hm e' hm' hse
    cases List.mem_singleton.mp hm'
    exact htop.passed e hm hse directive (.head _)

theorem push {record : Traversal} {visited : List Path} {f : Frame}
    (h : Ordered ⟨record, visited, stack⟩) (hf : OrderedFrame record f)
    (hn : f.path ∉ stack.map (·.path)) : Ordered ⟨record, visited, f :: stack⟩ where
  frames  := List.forall_mem_cons.mpr ⟨hf, h.frames⟩
  apart   := List.nodup_cons.mpr ⟨hn, h.apart⟩
  targets := h.targets
  grown   := h.grown
  lines   := h.lines

end Ordered

theorem Step.ordered (s : Step r sources w w') (hl : w.Listed sources) (h : w.Ordered) :
    w'.Ordered := by
  cases s
  case leave =>
    exact ⟨fun f hm => h.frames f <| .tail _ hm, h.apart.of_cons, h.targets, h.grown, h.lines⟩
  case enter record visited path depth directive pending stack target text hres hv _ _ =>
    -- The file is new, so it is not on the way and no directive has led on from it.
    have hnew : target ∉ record.entered :=
      mt (hl.contains_visited_iff <| Resolver.isNormal_of_resolve hres).mpr hv
    have hway : ∀ f ∈ (⟨path, depth, directive :: pending⟩ :: stack : List Frame), target ≠ f.path :=
      fun f hm he => hnew <| he ▸ (h.frames f hm).entered
    refine Ordered.push (f := ⟨target, depth + 1, Include.ofText text⟩) (h.extend rfl rfl rfl rfl rfl)
      ⟨?entered, Include.pairwise_ofText text, ?passed⟩ ?apart
    case entered => simp [Traversal.entered]
    case passed =>
      intro e he (hse : e.source = target)
      cases List.mem_append.mp he
      case inl he => exact absurd (hse ▸ h.source_mem he) hnew
      case inr he =>
        cases List.mem_singleton.mp he
        exact absurd hse.symm <| hway _ (.head _)
    case apart => simpa [eq_comm] using hway
  case fail => exact h.extend rfl rfl rfl rfl rfl
  all_goals exact h.next rfl rfl rfl rfl rfl

theorem ordered_start (sources : Sources) (root : Path) : (start sources root).Ordered := by
  obtain ⟨record, hs, _, hf, he, _⟩ | ⟨text, _, _, hs⟩ := start_cases sources root
  case inl =>
    rw [hs]
    refine ⟨?_, ?_, ?_, ?grown, ?_⟩
    case grown => exact he ▸ .nil
    all_goals simp [hf, he]
  case inr =>
    rw [hs]
    refine ⟨?frames, ?_, ?_, .nil, ?_⟩
    case frames =>
      intro f hm
      cases List.mem_singleton.mp hm
      exact ⟨.head _, Include.pairwise_ofText text, by simp⟩
    all_goals simp

end Walk

namespace Resolver

variable {r : Resolver} {sources : Sources} {file : Path}

theorem ordered_traverse (r : Resolver) (sources : Sources) (file : Path) :
    ∃ w : Walk, w.Listed sources ∧ w.Ordered ∧ w.record = r.traverse sources file := by
  have h := Walk.run_preserves (p := fun w => w.Sound r sources ∧ w.Ordered)
    (fun s h => ⟨s.sound h.left, s.ordered h.left.listed h.right⟩)
    ⟨Walk.sound_start <| Path.identity_absolutize .., Walk.ordered_start sources (r.absolutize file)⟩
  exact ⟨_, h.left.listed, h.right, rfl⟩

-- Wherever the walk stands, the depth of a file on the way is its depth in the tree.
theorem liesAt_of_mem_stack {n : Nat} {f : Frame}
    (h : f ∈ (Walk.advance r sources n <| .start sources <| r.absolutize file).stack) :
    (r.traverse sources file).LiesAt f.depth f.path ∧ f.depth ≤ r.maxDepth := by
  have hsound : (Walk.advance r sources n <| .start sources <| r.absolutize file).Sound r sources :=
    Walk.advance_preserves Walk.Step.sound n <| Walk.sound_start <| Path.identity_absolutize ..
  have hframe := hsound.placed.frames f h
  rw [traverse, ← Walk.run_advance n]
  exact ⟨Walk.run_preserves (p := (·.record.LiesAt f.depth f.path)) (fun s h => s.liesAt h) hframe.lies,
    hframe.depth_le⟩

theorem files_eq_targets (r : Resolver) (sources : Sources) (file : Path) :
    (r.traverse sources file).files = (r.traverse sources file).edges.map (·.target) := by
  have ⟨_, _, ho, he⟩ := r.ordered_traverse sources file
  exact he ▸ ho.targets

theorem liesAt_iff_of_mem_files {p : Path} (h : p ∈ (r.traverse sources file).files) :
    ∃ k, 1 ≤ k ∧ k ≤ r.maxDepth ∧ ∀ n, (r.traverse sources file).LiesAt n p ↔ n = k := by
  have ⟨k, hk, hl⟩ := liesAt_of_mem_files h
  have hnodup : (r.traverse sources file).entered.Nodup := nodup_entered
  refine ⟨k, ?pos, hk, fun n => ⟨?unique, fun hn => hn ▸ hl⟩⟩
  case pos =>
    cases Traversal.lies_iff.mp hl
    case inl hroot => exact absurd (hroot.right ▸ h) (List.nodup_cons.mp hnodup).left
    case inr hedge =>
      have ⟨_, _, _, _, hm, _⟩ := hedge
      omega
  case unique =>
    intro hn
    rw [Traversal.entered, files_eq_targets] at hnodup
    exact hn.unique hnodup hl

-- The files entered are spanned by a tree below the root, and the depth of a file on the way is its depth
-- in the tree, so that it stays within the bound however large that is.
theorem spansTree_traverse (r : Resolver) (sources : Sources) (file : Path) :
    (r.traverse sources file).SpansTree sources (r.absolutize file) r.maxDepth ∧
    ∀ n, ∀ f ∈ (Walk.advance r sources n <| .start sources <| r.absolutize file).stack,
      (r.traverse sources file).LiesAt f.depth f.path ∧ f.depth ≤ r.maxDepth ∧
        (r.maxDepth < 2 ^ 64 → f.depth < 2 ^ 64) := by
  have ⟨w, hl, ho, he⟩ := r.ordered_traverse sources file
  have hroot := r.root_traverse sources file
  refine ⟨⟨hroot, ?distinct, r.files_eq_targets sources file, ?earlier, ?lines, ?isFile, ?identity,
    ?depth⟩, ?frames⟩
  case distinct => exact hroot ▸ pairwise_entered
  case earlier =>
    intro i e hi
    rw [files_eq_targets, ← hroot]
    rw [← he] at hi ⊢
    exact ho.grown.earlier hi
  case lines =>
    rw [← he]
    refine ho.lines.imp_of_mem ?_
    intro e e' hm hm' hlt hs
    exact hlt <| hl.eq_of_beq (ho.source_mem hm) (ho.source_mem hm') hs
  case isFile   => exact fun p hp => isFile_of_mem_files hp
  case identity => exact fun p hp => (isNormal_of_mem_files hp).identity_eq
  case depth    => exact fun p hp => liesAt_iff_of_mem_files hp
  case frames =>
    intro n f hf
    have ⟨hlies, hle⟩ := liesAt_of_mem_stack hf
    exact ⟨hlies, hle, hle.trans_lt⟩

end Resolver

-- Two ways to `/c`, a way back to the root and a file that cannot be read.
theorem spansTree_diamond :
    let r := Resolver.mk (.ofText "/") none [] 2
    let m : MemoryFiles :=
      { texts  := ⟨[(.ofText "/a", "#include \"b\"\n#include \"c\"\n#include \"d\"\n"),
          (.ofText "/b", "#include \"c\"\n#include \"a\"\n"), (.ofText "/c", "")]⟩
        locked := [.ofText "/d"] }
    let t := r.traverse m.sources (.ofText "/a")
    t.files.map (·.text) = ["/b", "/c", "/d"] ∧
    t.edges.map (fun e => (e.source.text, e.directive.line)) = [("/a", 0), ("/b", 0), ("/a", 2)] ∧
    t.SpansTree m.sources (r.absolutize <| .ofText "/a") 2 ∧
    (∃ k, 1 ≤ k ∧ k ≤ 2 ∧ ∀ n, t.LiesAt n (.ofText "/c") ↔ n = k) ∧
    ∃ f ∈ (Walk.advance r m.sources 2 <| .start m.sources <| r.absolutize <| .ofText "/a").stack,
      f.path.text = "/c" ∧ f.depth = 2 ∧ t.LiesAt f.depth f.path ∧ f.depth < 2 ^ 64 := by
  intro r m t
  have ⟨htree, hframes⟩ := r.spansTree_traverse m.sources (.ofText "/a")
  have ht : t = _ := Resolver.traverse_eq_advance 12 (by decide +kernel)
  have hfiles : t.files.map (·.text) = ["/b", "/c", "/d"] := by
    rw [ht]
    decide +kernel
  have hc : .ofText "/c" ∈ t.files := by
    rw [Traversal.mem_files_iff_text, hfiles]
    simp
  have ⟨f, hf, hpath, hdepth⟩ :
      ∃ f ∈ (Walk.advance r m.sources 2 <| .start m.sources <| r.absolutize <| .ofText "/a").stack,
        f.path.text = "/c" ∧ f.depth = 2 := by
    decide +kernel
  have ⟨hlies, _, hword⟩ := hframes 2 f hf
  refine ⟨hfiles, ?_, htree, htree.depth _ hc, f, hf, hpath, hdepth, hlies, hword (by decide)⟩
  rw [ht]
  decide +kernel

end ScriptMaps
