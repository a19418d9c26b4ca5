import Mathlib.Data.Set.Card
import Mathlib.Logic.Relation
import ScriptMaps.Proofs.Include.Walk

namespace ScriptMaps

-- A directive of a file that is there and can be read.
def Sources.Holds (sources : Sources) (file : Path) (directive : Include) : Prop :=
  sources.isFile file ∧ ∃ text, sources.read file = .ok text ∧ directive ∈ Include.ofText text

-- One file includes another if it holds a directive that leads there.
def Resolver.Includes (r : Resolver) (sources : Sources) (f g : Path) : Prop :=
  ∃ directive, sources.Holds f directive ∧ r.resolve sources f directive = .found g

-- A chain of so many files, each including the next.
inductive Resolver.Chain (r : Resolver) (sources : Sources) (f : Path) : Nat → Path → Prop
  | refl : Chain r sources f 0 f
  | tail {n g h} : Chain r sources f n g → r.Includes sources g h → Chain r sources f (n + 1) h

theorem Resolver.Chain.reflTransGen {r : Resolver} {sources : Sources} {f g : Path} {n : Nat}
    (h : r.Chain sources f n g) : Relation.ReflTransGen (r.Includes sources) f g := by
  induction h
  case refl         => exact .refl
  case tail _ hg hi => exact hi.tail hg

namespace Traversal

-- The files that the walk has been in.
def entered (t : Traversal) : List Path :=
  t.root :: t.files

-- The depth of a file in the tree that the directives by which files were entered form.
inductive Lies (root : Path) (edges : List IncludeEdge) : Nat → Path → Prop
  | root : Lies root edges 0 root
  | edge {n e} : Lies root edges n e.source → e ∈ edges → Lies root edges (n + 1) e.target

abbrev LiesAt (t : Traversal) : Nat → Path → Prop :=
  Lies t.root t.edges

theorem Lies.mono {root : Path} {edges edges' : List IncludeEdge} {n : Nat} {p : Path}
    (hs : edges ⊆ edges') (h : Lies root edges n p) : Lies root edges' n p := by
  induction h
  case root         => exact .root
  case edge _ he hi => exact .edge hi (hs he)

theorem mem_files_iff_text {t : Traversal} {p : Path} : p ∈ t.files ↔ p.text ∈ t.files.map (·.text) :=
  (List.mem_map_of_injective fun _ _ => Path.ext).symm

end Traversal

namespace Walk

variable {r : Resolver} {sources : Sources} {w w' : Walk} {target : Path}

-- The files entered are there, each once and in normal form, and they are what counts as visited.
structure Listed (sources : Sources) (w : Walk) : Prop where
  identity_root : w.record.root.identity = w.record.root
  isNormal      : ∀ p ∈ w.record.files, p.IsNormal
  isFile        : ∀ p ∈ w.record.files, sources.isFile p
  nodup         : w.record.entered.Nodup
  visited       : w.visited = w.record.entered.reverse

namespace Listed

theorem identity (h : w.Listed sources) {p : Path} (hp : p ∈ w.record.entered) : p.identity = p := by
  cases hp
  case head    => exact h.identity_root
  case tail hp => exact (h.isNormal p hp).identity_eq

-- Only the root may be without a normal form, so comparing the components is enough.
theorem eq_of_beq (h : w.Listed sources) {p q : Path} (hp : p ∈ w.record.entered)
    (hq : q ∈ w.record.entered) (he : p == q) : p = q := by
  cases hq
  case tail hq => exact (h.isNormal q hq).eq_of_beq (h.identity hp) he
  case head =>
    cases hp
    case head    => rfl
    case tail hp =>
      have he' := Path.beq_iff.mpr (Path.beq_iff.mp he).symm
      exact ((h.isNormal p hp).eq_of_beq h.identity_root he').symm

theorem contains_visited_iff (h : w.Listed sources) (hn : target.IsNormal) :
    w.visited.contains target.identity ↔ target ∈ w.record.entered := by
  rw [hn.identity_eq, List.contains_iff_exists_mem_beq, h.visited]
  constructor
  case mp =>
    intro ⟨p, hp, he⟩
    have hp := List.mem_reverse.mp hp
    have he := hn.eq_of_beq (h.identity hp) <| Path.beq_iff.mpr (Path.beq_iff.mp he).symm
    exact he ▸ hp
  case mpr =>
    intro hm
    exact ⟨target, List.mem_reverse.mpr hm, Path.beq_iff.mpr rfl⟩

theorem extend (h : w.Listed sources) (hn : target.IsNormal) (hf : sources.isFile target)
    (hv : ¬w.visited.contains target.identity) (hr : w'.record.root = w.record.root)
    (hw : w'.record.files = w.record.files ++ [target])
    (hw' : w'.visited = target.identity :: w.visited) : w'.Listed sources := by
  have he : w'.record.entered = w.record.entered ++ [target] := by
    simp [Traversal.entered, hr, hw]
  rw [h.contains_visited_iff hn] at hv
  refine ⟨hr ▸ h.identity_root, ?isNormal, ?isFile, ?nodup, ?visited⟩
  case isNormal => simpa [hw, or_imp, forall_and, hn] using h.isNormal
  case isFile   => simpa [hw, or_imp, forall_and, hf] using h.isFile
  case nodup    => exact he ▸ List.nodup_append.mpr ⟨h.nodup, by simp, by grind⟩
  case visited  => simp [he, hw', hn.identity_eq, h.visited]

end Listed

theorem Step.listed (s : Step r sources w w') (h : w.Listed sources) : w'.Listed sources := by
  cases s
  case enter hr hv _ _ =>
    exact h.extend (Resolver.isNormal_of_resolve hr) (Resolver.isFile_of_resolve hr) hv rfl rfl rfl
  case fail hr hv _ _ =>
    exact h.extend (Resolver.isNormal_of_resolve hr) (Resolver.isFile_of_resolve hr) hv rfl rfl rfl
  all_goals exact ⟨h.identity_root, h.isNormal, h.isFile, h.nodup, h.visited⟩

-- A file on the way lies where its depth says, and what is pending are directives of its own. A file
-- was entered for each level above it.
structure PlacedFrame (r : Resolver) (sources : Sources) (t : Traversal) (f : Frame) : Prop where
  lies         : t.LiesAt f.depth f.path
  depth_le     : f.depth ≤ r.maxDepth
  depth_le_len : f.depth ≤ t.files.length
  holds        : ∀ d ∈ f.pending, sources.Holds f.path d

namespace PlacedFrame

variable {t t' : Traversal} {f : Frame}

theorem mono (h : PlacedFrame r sources t f) (hr : t'.root = t.root) (he : t.edges ⊆ t'.edges)
    (hf : t.files.length ≤ t'.files.length) : PlacedFrame r sources t' f where
  lies         := by rw [Traversal.LiesAt, hr]; exact h.lies.mono he
  depth_le     := h.depth_le
  depth_le_len := h.depth_le_len.trans hf
  holds        := h.holds

theorem next {path : Path} {depth : Nat} {directive : Include} {pending : List Include}
    (h : PlacedFrame r sources t ⟨path, depth, directive :: pending⟩) :
    PlacedFrame r sources t ⟨path, depth, pending⟩ where
  lies         := h.lies
  depth_le     := h.depth_le
  depth_le_len := h.depth_le_len
  holds d hd   := h.holds d <| List.mem_cons_of_mem _ hd

end PlacedFrame

-- The files entered form a tree of bounded depth below the root.
structure Placed (r : Resolver) (sources : Sources) (w : Walk) : Prop where
  frames   : ∀ f ∈ w.stack, PlacedFrame r sources w.record f
  includes : ∀ e ∈ w.record.edges, r.Includes sources e.source e.target
  files    : ∀ p ∈ w.record.files, ∃ n ≤ r.maxDepth, w.record.LiesAt n p

namespace Placed

-- Taking a directive off the file on top of the stack, with nothing new in the tree.
theorem next {path : Path} {depth : Nat} {directive : Include} {pending : List Include}
    {stack : List Frame} (h : w.Placed r sources)
    (hs : w.stack = ⟨path, depth, directive :: pending⟩ :: stack)
    (hr : w'.record.root = w.record.root) (hf : w'.record.files = w.record.files)
    (he : w'.record.edges = w.record.edges) (hw : w'.stack = ⟨path, depth, pending⟩ :: stack) :
    w'.Placed r sources := by
  refine ⟨?frames, he ▸ h.includes, ?files⟩
  case frames =>
    intro f hm
    apply PlacedFrame.mono _ hr (by simp [he]) (by simp [hf])
    cases hw ▸ hm
    case head    => exact (h.frames _ <| hs ▸ List.mem_cons_self).next
    case tail hm => exact h.frames f (hs ▸ List.mem_cons_of_mem _ hm)
  case files => rw [Traversal.LiesAt, hf, hr, he]; exact h.files

-- Entering the file that a pending directive leads to, apart from what becomes pending with it.
theorem extend {path : Path} {depth : Nat} {directive : Include} {pending : List Include}
    {stack : List Frame} (h : w.Placed r sources)
    (hs : w.stack = ⟨path, depth, directive :: pending⟩ :: stack)
    (hres : r.resolve sources path directive = .found target) (hd : depth < r.maxDepth)
    (hr : w'.record.root = w.record.root) (hf : w'.record.files = w.record.files ++ [target])
    (he : w'.record.edges = w.record.edges ++ [⟨path, target, directive⟩])
    (hw : w'.stack = ⟨path, depth, pending⟩ :: stack) : w'.Placed r sources := by
  have hsub : w.record.edges ⊆ w'.record.edges := by simp [he]
  have htop := h.frames ⟨path, depth, directive :: pending⟩ (by simp [hs])
  refine ⟨?frames, ?includes, ?files⟩
  case frames =>
    intro f hm
    apply PlacedFrame.mono _ hr hsub (by simp [hf])
    cases hw ▸ hm
    case head    => exact htop.next
    case tail hm => exact h.frames f (hs ▸ List.mem_cons_of_mem _ hm)
  case includes =>
    intro e hm
    cases List.mem_append.mp (he ▸ hm)
    case inl hm => exact h.includes e hm
    case inr hm => exact List.mem_singleton.mp hm ▸ ⟨directive, htop.holds directive (by simp), hres⟩
  case files =>
    intro p hm
    rw [Traversal.LiesAt, hr]
    cases List.mem_append.mp (hf ▸ hm)
    case inl hm =>
      have ⟨n, hn, hl⟩ := h.files p hm
      exact ⟨n, hn, hl.mono hsub⟩
    case inr hm =>
      have hlies := htop.lies.mono hsub |>.edge (e := ⟨path, target, directive⟩) (by simp [he])
      exact List.mem_singleton.mp hm ▸ ⟨depth + 1, hd, hlies⟩

theorem push {record : Traversal} {visited : List Path} {stack : List Frame} {f : Frame}
    (h : Placed r sources ⟨record, visited, stack⟩) (hf : PlacedFrame r sources record f) :
    Placed r sources ⟨record, visited, f :: stack⟩ :=
  ⟨by simpa using ⟨hf, h.frames⟩, h.includes, h.files⟩

end Placed

theorem Step.placed (s : Step r sources w w') (h : w.Placed r sources) : w'.Placed r sources := by
  cases s
  case leave => exact ⟨fun f hm => h.frames f <| .tail _ hm, h.includes, h.files⟩
  case enter path depth directive pending stack target text hres _ hd ht =>
    have htop := h.frames ⟨path, depth, directive :: pending⟩ (by simp)
    refine Placed.push (h.extend rfl hres hd rfl rfl rfl rfl) ?_
    exact {
      lies         := .edge (e := ⟨path, target, directive⟩) (htop.lies.mono <| by simp) (by simp)
      depth_le     := hd
      depth_le_len := by simpa using htop.depth_le_len
      holds        := fun d hm => ⟨Resolver.isFile_of_resolve hres, text, ht, hm⟩ }
  case fail hres _ hd _ => exact h.extend rfl hres hd rfl rfl rfl rfl
  all_goals exact h.next rfl rfl rfl rfl rfl

-- A walk accounts for an inclusion if it has been in the included file, or will come to a directive
-- that leads there, or has come to one at its full depth.
def Accounts (r : Resolver) (sources : Sources) (w : Walk) (f g : Path) : Prop :=
  g ∈ w.record.entered ∨
  (∃ frame ∈ w.stack, frame.path = f ∧ ∃ d ∈ frame.pending, r.resolve sources f d = .found g) ∨
  w.record.LiesAt r.maxDepth f ∧ 0 < w.record.truncated

-- A walk accounts for all that the files it has been in include.
def Closed (r : Resolver) (sources : Sources) (w : Walk) : Prop :=
  ∀ f ∈ w.record.entered, ∀ g, r.Includes sources f g → w.Accounts r sources f g

namespace Step

theorem entered_subset (s : Step r sources w w') : w.record.entered ⊆ w'.record.entered := by
  cases s <;> simp [Traversal.entered]

theorem liesAt (s : Step r sources w w') {n : Nat} {p : Path} (h : w.record.LiesAt n p) :
    w'.record.LiesAt n p := by
  cases s
  case enter | fail => exact h.mono <| by simp
  all_goals exact h

theorem truncated_le (s : Step r sources w w') : w.record.truncated ≤ w'.record.truncated := by
  cases s <;> simp

-- A directive that is taken off the file on top of the stack leads to a file that the walk has been
-- in, or its file lies at the full depth.
theorem settles {record : Traversal} {visited : List Path} {path : Path} {depth : Nat}
    {directive : Include} {pending : List Include} {stack : List Frame}
    (s : Step r sources ⟨record, visited, ⟨path, depth, directive :: pending⟩ :: stack⟩ w')
    (hl : Listed sources ⟨record, visited, ⟨path, depth, directive :: pending⟩ :: stack⟩)
    (hp : Placed r sources ⟨record, visited, ⟨path, depth, directive :: pending⟩ :: stack⟩) {g : Path}
    (hg : r.resolve sources path directive = .found g) :
    g ∈ w'.record.entered ∨ w'.record.LiesAt r.maxDepth path ∧ 0 < w'.record.truncated := by
  cases s
  case miss hres => cases hres.symm.trans hg
  case revisit hv hres =>
    cases hres.symm.trans hg
    exact .inl <| (hl.contains_visited_iff <| Resolver.isNormal_of_resolve hres).mp hv
  case truncate _ hd _ =>
    have htop := hp.frames ⟨path, depth, directive :: pending⟩ (by simp)
    have hde : depth = r.maxDepth := Nat.le_antisymm htop.depth_le hd
    exact .inr ⟨hde ▸ htop.lies, by simp⟩
  case enter hres | fail hres =>
    cases hres.symm.trans hg
    exact .inl <| by simp [Traversal.entered]

theorem stack_cases (s : Step r sources w w') :
    (∃ path depth, w.stack = ⟨path, depth, []⟩ :: w'.stack) ∨
      ∃ path depth directive pending stack, w.stack = ⟨path, depth, directive :: pending⟩ :: stack ∧
        ⟨path, depth, pending⟩ :: stack <:+ w'.stack := by
  cases s
  case leave => exact .inl ⟨_, _, rfl⟩
  case enter => exact .inr ⟨_, _, _, _, _, rfl, List.suffix_cons ..⟩
  all_goals exact .inr ⟨_, _, _, _, _, rfl, List.suffix_rfl⟩

-- A pending directive stays pending unless it is the next one.
theorem pending_cases (s : Step r sources w w') {frame : Frame} (hf : frame ∈ w.stack)
    {d : Include} (hd : d ∈ frame.pending) :
    (∃ frame' ∈ w'.stack, frame'.path = frame.path ∧ d ∈ frame'.pending) ∨
      ∃ depth pending stack, w.stack = ⟨frame.path, depth, d :: pending⟩ :: stack := by
  obtain ⟨path, depth, hs⟩ | ⟨path, depth, directive, pending, stack, hs, hw⟩ := s.stack_cases
  case inl =>
    cases hs ▸ hf
    case head    => simp at hd
    case tail hf => exact .inl ⟨frame, hf, rfl, hd⟩
  case inr =>
    cases hs ▸ hf
    case tail hf => exact .inl ⟨frame, hw.subset <| .tail _ hf, rfl, hd⟩
    case head =>
      cases hd
      case head    => exact .inr ⟨depth, pending, stack, hs⟩
      case tail hd => exact .inl ⟨⟨path, depth, pending⟩, hw.subset <| .head _, rfl, hd⟩

theorem accounts (s : Step r sources w w') (hl : w.Listed sources) (hp : w.Placed r sources)
    {f g : Path} (h : w.Accounts r sources f g) : w'.Accounts r sources f g := by
  obtain h | ⟨frame, hm, rfl, d, hd, hres⟩ | ⟨h, ht⟩ := h
  case inl     => exact .inl <| s.entered_subset h
  case inr.inr => exact .inr <| .inr ⟨s.liesAt h, ht.trans_le s.truncated_le⟩
  case inr.inl =>
    obtain ⟨frame', hm', hpath, hd⟩ | ⟨_, _, _, hs⟩ := s.pending_cases hm hd
    case inl => exact .inr <| .inl ⟨frame', hm', hpath, d, hd, hres⟩
    case inr =>
      obtain ⟨record, visited, stack⟩ := w
      cases hs
      cases s.settles hl hp hres
      case inl hg => exact .inl hg
      case inr hc => exact .inr <| .inr hc

-- All directives of a file are pending when the walk comes to it.
theorem entered_cases (s : Step r sources w w') {f : Path} (hf : f ∈ w'.record.entered) :
    f ∈ w.record.entered ∨
      ∀ d, sources.Holds f d → ∃ frame ∈ w'.stack, frame.path = f ∧ d ∈ frame.pending := by
  cases s
  case enter record _ _ _ _ _ _ target text _ _ _ ht =>
    have hf : f ∈ record.entered ∨ f = target := by simpa [Traversal.entered, or_assoc] using hf
    refine hf.imp_right ?_
    rintro rfl d ⟨_, text', ht', hd⟩
    cases ht.symm.trans ht'
    exact ⟨_, .head _, rfl, hd⟩
  case fail record _ _ _ _ _ _ target _ _ _ _ he =>
    have hf : f ∈ record.entered ∨ f = target := by simpa [Traversal.entered, or_assoc] using hf
    refine hf.imp_right ?_
    rintro rfl d ⟨_, text, ht, _⟩
    cases he.symm.trans ht
  all_goals exact .inl hf

theorem closed (s : Step r sources w w') (hl : w.Listed sources) (hp : w.Placed r sources)
    (h : w.Closed r sources) : w'.Closed r sources := by
  intro f hf g ⟨d, hd, hres⟩
  cases s.entered_cases hf
  case inl hf => exact s.accounts hl hp <| h f hf g ⟨d, hd, hres⟩
  case inr hn =>
    have ⟨frame, hm, hpath, hpend⟩ := hn d hd
    exact .inr <| .inl ⟨frame, hm, hpath, d, hpend, hres⟩

end Step

-- What holds all along a walk.
structure Sound (r : Resolver) (sources : Sources) (w : Walk) : Prop where
  listed : w.Listed sources
  placed : w.Placed r sources
  closed : w.Closed r sources

theorem Step.sound (s : Step r sources w w') (h : w.Sound r sources) : w'.Sound r sources where
  listed := s.listed h.listed
  placed := s.placed h.placed
  closed := s.closed h.listed h.placed h.closed

-- The root is entered with all its directives, if it has any.
theorem start_cases (sources : Sources) (root : Path) :
    (∃ record : Traversal, start sources root = ⟨record, [root.identity], []⟩ ∧ record.root = root ∧
      record.files = [] ∧ record.edges = [] ∧ record.truncated = 0 ∧ ∀ d, ¬sources.Holds root d) ∨
    ∃ text, sources.isFile root ∧ sources.read root = .ok text ∧
      start sources root = ⟨{ root }, [root.identity], [⟨root, 0, Include.ofText text⟩]⟩ := by
  rw [start, Walk.enter]
  split
  case isTrue hf =>
    split
    case h_1 text ht => exact .inr ⟨text, hf, ht, rfl⟩
    case h_2 e he =>
      refine .inl ⟨_, rfl, rfl, rfl, rfl, rfl, ?_⟩
      rintro d ⟨_, text, ht, _⟩
      cases he.symm.trans ht
  case isFalse hf => exact .inl ⟨_, rfl, rfl, rfl, rfl, rfl, fun d hd => hf hd.left⟩

theorem sound_start {root : Path} (h : root.identity = root) : (start sources root).Sound r sources := by
  obtain ⟨record, hs, hr, hf, he, _, hd⟩ | ⟨text, hroot, ht, hs⟩ := start_cases sources root
  case inl =>
    rw [hs]
    refine ⟨⟨?_, ?_, ?_, ?_, ?_⟩, ⟨?_, ?_, ?_⟩, ?closed⟩
    case closed =>
      intro f hm g ⟨d, hh, _⟩
      have hfr : f = root := by simpa [Traversal.entered, hr, hf] using hm
      exact absurd hh <| hfr ▸ hd d
    all_goals simp [Traversal.entered, hr, hf, he, h]
  case inr =>
    rw [hs]
    refine ⟨⟨?_, ?_, ?_, ?_, ?_⟩, ⟨?frames, ?_, ?_⟩, ?closed⟩
    case frames =>
      intro f hm
      cases List.mem_singleton.mp hm
      exact ⟨.root, Nat.zero_le _, Nat.zero_le _, fun d hd => ⟨hroot, text, ht, hd⟩⟩
    case closed =>
      intro f hm g ⟨d, ⟨_, text', ht', hd⟩, hres⟩
      have hfr : f = root := by simpa [Traversal.entered] using hm
      subst hfr
      cases ht.symm.trans ht'
      exact .inr <| .inl ⟨_, .head _, rfl, d, hd, hres⟩
    all_goals simp [Traversal.entered, h]

end Walk

-- The files there are under a path that is its own identity. They are counted as paths are compared,
-- by their components.
def Sources.known (sources : Sources) : Set (List Component) :=
  { components | ∃ p : Path, sources.isFile p ∧ p.identity = p ∧ p.components = components }

namespace Walk

variable {r : Resolver} {sources : Sources} {w w' : Walk} {target : Path}

theorem Listed.length_lt (h : w.Listed sources) (hk : sources.known.Finite) (hn : target.IsNormal)
    (hf : sources.isFile target) (hv : ¬w.visited.contains target.identity) :
    w.record.files.length < sources.known.ncard := by
  have hnormal : ∀ p ∈ target :: w.record.files, p.IsNormal := by simpa [hn] using h.isNormal
  have hfile : ∀ p ∈ target :: w.record.files, sources.isFile p := by simpa [hf] using h.isFile
  have hnodup : (target :: w.record.files).Nodup := by
    rw [h.contains_visited_iff hn] at hv
    exact List.nodup_cons.mpr ⟨fun hm => hv <| .tail _ hm, (List.nodup_cons.mp h.nodup).right⟩
  have hcomp : ((target :: w.record.files).map (·.components)).Nodup := by
    apply hnodup.map_on
    intro p hp q hq he
    exact (hnormal p hp).beq_iff_eq (hnormal q hq) |>.mp <| Path.beq_iff.mpr he
  have hsub : (((target :: w.record.files).map (·.components)).toFinset : Set _) ⊆ sources.known := by
    intro c hc
    have ⟨p, hp, he⟩ := List.mem_map.mp <| List.mem_toFinset.mp hc
    exact ⟨p, hfile p hp, (hnormal p hp).identity_eq, he⟩
  have hle := Set.ncard_le_ncard hsub hk
  rw [Set.ncard_coe_finset, List.toFinset_card_of_nodup hcomp] at hle
  simpa using hle

-- With a depth that is not less than the number of files, no directive is cut off: the file at the
-- full depth, those above it and the one the directive leads to would be too many.
theorem Step.truncated_eq (s : Step r sources w w') (hl : w.Listed sources) (hp : w.Placed r sources)
    (hk : sources.known.Finite) (hn : sources.known.ncard ≤ r.maxDepth) :
    w'.record.truncated = w.record.truncated := by
  cases s
  case leave | miss | revisit | enter | fail => rfl
  case truncate path depth directive pending _ _ hres hv _ =>
    have hlen := (hp.frames ⟨path, depth, directive :: pending⟩ <| by simp).depth_le_len
    have hlt := hl.length_lt hk (Resolver.isNormal_of_resolve hres) (Resolver.isFile_of_resolve hres) hv
    simp only at hlen hlt
    omega

theorem Step.root_eq (s : Step r sources w w') : w'.record.root = w.record.root := by
  cases s <;> rfl

end Walk

theorem Traversal.Lies.chain {r : Resolver} {sources : Sources} {root : Path}
    {edges : List IncludeEdge} {n : Nat} {p : Path} (h : Lies root edges n p)
    (he : ∀ e ∈ edges, r.Includes sources e.source e.target) : r.Chain sources root n p := by
  induction h
  case root         => exact .refl
  case edge _ hm hi => exact hi.tail (he _ hm)

namespace Resolver

variable (r : Resolver) (sources : Sources) (file : Path)

theorem root_traverse : (r.traverse sources file).root = r.absolutize file := by
  have hs : (Walk.start sources (r.absolutize file)).record.root = r.absolutize file := by
    obtain ⟨_, hs, hr, _⟩ | ⟨_, _, _, hs⟩ := Walk.start_cases sources (r.absolutize file)
    case inl => rw [hs, hr]
    case inr => rw [hs]
  exact Walk.run_preserves (p := (·.record.root = r.absolutize file))
    (fun s h => s.root_eq.trans h) hs

-- The walk whose record a traversal is, at its end.
theorem sound_traverse :
    ∃ w : Walk, w.Sound r sources ∧ w.stack = [] ∧ w.record = r.traverse sources file :=
  ⟨_, Walk.run_preserves Walk.Step.sound <| Walk.sound_start <| Path.identity_absolutize ..,
    Walk.stack_run _, rfl⟩

variable {r sources file}

theorem liesAt_of_mem_files {p : Path} (h : p ∈ (r.traverse sources file).files) :
    ∃ n ≤ r.maxDepth, (r.traverse sources file).LiesAt n p := by
  have ⟨w, hw, _, he⟩ := r.sound_traverse sources file
  exact he ▸ hw.placed.files p (he ▸ h)

theorem includes_of_mem_edges {e : IncludeEdge} (h : e ∈ (r.traverse sources file).edges) :
    r.Includes sources e.source e.target := by
  have ⟨w, hw, _, he⟩ := r.sound_traverse sources file
  exact hw.placed.includes e (he ▸ h)

theorem chain_of_liesAt {n : Nat} {p : Path} (h : (r.traverse sources file).LiesAt n p) :
    r.Chain sources (r.absolutize file) n p :=
  r.root_traverse sources file ▸ h.chain fun _ he => includes_of_mem_edges he

theorem isNormal_of_mem_files {p : Path} (h : p ∈ (r.traverse sources file).files) : p.IsNormal := by
  have ⟨w, hw, _, he⟩ := r.sound_traverse sources file
  exact hw.listed.isNormal p (he ▸ h)

theorem isFile_of_mem_files {p : Path} (h : p ∈ (r.traverse sources file).files) :
    sources.isFile p := by
  have ⟨w, hw, _, he⟩ := r.sound_traverse sources file
  exact hw.listed.isFile p (he ▸ h)

theorem nodup_entered : (r.traverse sources file).entered.Nodup := by
  have ⟨w, hw, _, he⟩ := r.sound_traverse sources file
  exact he ▸ hw.listed.nodup

theorem identity_of_mem_entered {p : Path} (h : p ∈ (r.traverse sources file).entered) :
    p.identity = p := by
  have ⟨w, hw, _, he⟩ := r.sound_traverse sources file
  exact hw.listed.identity (he ▸ h)

theorem pairwise_entered : (r.traverse sources file).entered.Pairwise (¬· == ·) := by
  have ⟨w, hw, _, he⟩ := r.sound_traverse sources file
  rw [← he]
  refine List.Pairwise.imp_of_mem ?_ hw.listed.nodup
  intro p q hp hq hne hpq
  exact hne <| hw.listed.eq_of_beq hp hq hpq

theorem pairwise_files : (r.traverse sources file).files.Pairwise (¬· == ·) :=
  pairwise_entered.of_cons

-- What a file that was entered includes has been entered too, unless the file lies at the full depth.
theorem mem_entered_of_includes {f g : Path} (hf : f ∈ (r.traverse sources file).entered)
    (hg : r.Includes sources f g) :
    g ∈ (r.traverse sources file).entered ∨
      (r.traverse sources file).LiesAt r.maxDepth f ∧ 0 < (r.traverse sources file).truncated := by
  have ⟨w, hw, hs, he⟩ := r.sound_traverse sources file
  obtain h | ⟨frame, hm, _⟩ | h := hw.closed f (he ▸ hf) g hg
  case inl     => exact .inl <| he ▸ h
  case inr.inl => simp [hs] at hm
  case inr.inr => exact .inr <| he ▸ h

theorem mem_entered_of_reflTransGen (ht : (r.traverse sources file).truncated = 0) {p : Path}
    (h : Relation.ReflTransGen (r.Includes sources) (r.absolutize file) p) :
    p ∈ (r.traverse sources file).entered := by
  induction h
  case refl => simp [Traversal.entered, root_traverse]
  case tail _ hg hi => exact (mem_entered_of_includes hi hg).resolve_right <| by simp [ht]

theorem truncated_traverse (hk : sources.known.Finite) (hn : sources.known.ncard ≤ r.maxDepth) :
    (r.traverse sources file).truncated = 0 := by
  have hs : (Walk.start sources (r.absolutize file)).record.truncated = 0 := by
    obtain ⟨_, hs, _, _, _, ht, _⟩ | ⟨_, _, _, hs⟩ := Walk.start_cases sources (r.absolutize file)
    case inl => rw [hs, ht]
    case inr => rw [hs]
  have hr := Walk.run_preserves (p := fun w => w.Sound r sources ∧ w.record.truncated = 0)
    (fun s h => ⟨s.sound h.left,
      (s.truncated_eq h.left.listed h.left.placed hk hn).trans h.right⟩)
    ⟨Walk.sound_start <| Path.identity_absolutize .., hs⟩
  exact hr.right

theorem IsAbsolute.chain (hr : r.IsAbsolute) {f g : Path} {n : Nat} (hf : f.isAbsolute)
    (h : r.Chain sources f n g) : g.isAbsolute := by
  induction h
  case refl => exact hf
  case tail hg hi =>
    have ⟨_, _, hres⟩ := hg
    exact hr.resolve hi hres

theorem IsAbsolute.files (hr : r.IsAbsolute) {p : Path} (h : p ∈ (r.traverse sources file).files) :
    p.isAbsolute := by
  have ⟨_, _, hl⟩ := liesAt_of_mem_files h
  exact hr.chain (hr.absolutize file) (chain_of_liesAt hl)

-- The files entered can be reached within the depth; they are all that can be reached if nothing was
-- cut off; and nothing is cut off if the depth is not less than the number of files there are.
theorem mem_files_traverse_iff_reachable (r : Resolver) (sources : Sources) (file : Path) :
    (∀ p ∈ (r.traverse sources file).files,
      ∃ n ≤ r.maxDepth, r.Chain sources (r.absolutize file) n p) ∧
    ((r.traverse sources file).truncated = 0 → ∀ p,
      (p = r.absolutize file ∨ p ∈ (r.traverse sources file).files ↔
        Relation.ReflTransGen (r.Includes sources) (r.absolutize file) p)) ∧
    (sources.known.Finite → sources.known.ncard ≤ r.maxDepth →
      (r.traverse sources file).truncated = 0) := by
  have hchain : ∀ p ∈ (r.traverse sources file).files,
      ∃ n ≤ r.maxDepth, r.Chain sources (r.absolutize file) n p := by
    intro p hp
    have ⟨n, hn, hl⟩ := liesAt_of_mem_files hp
    exact ⟨n, hn, chain_of_liesAt hl⟩
  refine ⟨hchain, ?complete, truncated_traverse⟩
  case complete =>
    intro ht p
    constructor
    case mp =>
      rintro (rfl | hp)
      · exact .refl
      · have ⟨_, _, hc⟩ := hchain p hp
        exact hc.reflTransGen
    case mpr =>
      intro hp
      simpa [Traversal.entered, root_traverse] using mem_entered_of_reflTransGen ht hp

end Resolver

namespace MemoryFiles

variable (m : MemoryFiles)

-- The paths at which there is something in memory.
def places : List Path :=
  m.locked ++ m.texts.entries.map (·.1)

theorem known_subset : m.sources.known ⊆ ((m.places.map (·.components)).toFinset : Set _) := by
  rintro _ ⟨p, hf, hp, rfl⟩
  have hq : ∃ q ∈ m.places, q.components = p.components := by
    cases Bool.or_eq_true_iff.mp hf
    case inl h =>
      have ⟨q, hq, he⟩ := List.contains_iff_exists_mem_beq.mp h
      exact ⟨q, List.mem_append_left _ hq, hp ▸ (Path.beq_iff.mp he).symm⟩
    case inr h =>
      have ⟨e, he, hb⟩ : ∃ e ∈ m.texts.entries, e.1 == p := by
        simpa [PathTable.contains, PathTable.find?, hp] using h
      exact ⟨e.1, List.mem_append_right _ <| List.mem_map_of_mem he, Path.beq_iff.mp hb⟩
  simpa using hq

theorem finite_known : m.sources.known.Finite :=
  (Finset.finite_toSet _).subset m.known_subset

theorem ncard_known_le : m.sources.known.ncard ≤ m.places.length := by
  calc m.sources.known.ncard
    _ ≤ ((m.places.map (·.components)).toFinset : Set _).ncard :=
      Set.ncard_le_ncard m.known_subset (Finset.finite_toSet _)
    _ = (m.places.map (·.components)).toFinset.card := Set.ncard_coe_finset _
    _ ≤ (m.places.map (·.components)).length := List.toFinset_card_le _
    _ = m.places.length := List.length_map _

end MemoryFiles

-- Two files that include each other, at a depth of two.
theorem reachable_cycle :
    let r := Resolver.mk (.ofText "/") none [] 2
    let m := MemoryFiles.write (.write {} (.ofText "/a") "#include \"b\"") (.ofText "/b") "#include \"a\""
    (∃ n ≤ 2, r.Chain m.sources (r.absolutize <| .ofText "/a") n (.ofText "/b")) ∧
    (r.traverse m.sources (.ofText "/a")).truncated = 0 ∧
    ∀ p, p = r.absolutize (.ofText "/a") ∨ p ∈ (r.traverse m.sources (.ofText "/a")).files ↔
      Relation.ReflTransGen (r.Includes m.sources) (r.absolutize <| .ofText "/a") p := by
  intro r m
  have ⟨hchain, hcomplete, hdepth⟩ := r.mem_files_traverse_iff_reachable m.sources (.ofText "/a")
  have hb : .ofText "/b" ∈ (r.traverse m.sources (.ofText "/a")).files := by
    rw [Traversal.mem_files_iff_text, Resolver.traverse_eq_advance 5 (by decide +kernel)]
    decide +kernel
  have hle : m.sources.known.ncard ≤ r.maxDepth := m.ncard_known_le.trans <| by decide +kernel
  have ht := hdepth m.finite_known hle
  exact ⟨hchain _ hb, ht, hcomplete ht⟩

end ScriptMaps
