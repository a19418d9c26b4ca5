import Mathlib.Data.List.TakeDrop
import ScriptMaps.Proofs.Path.Join

namespace ScriptMaps

-- How many `..` have no name before them to take away, `level` names below the start.
def Component.climbFrom : (level : Nat) → List Component → Nat
  | _, []                  => 0
  | 0, .up :: rest         => climbFrom 0 rest + 1
  | level + 1, .up :: rest => climbFrom level rest
  | level, .name _ :: rest => climbFrom (level + 1) rest
  | level, _ :: rest       => climbFrom level rest

namespace Path

-- How far above its start a relative path climbs.
def climb (p : Path) : Nat :=
  Component.climbFrom 0 p.components

variable {c p q : Path}

theorem climb_eq (h : ¬q.isAbsolute) :
    q.climb = Component.climbFrom 0 (Component.ofSegments q.text.toList) := by
  rw [climb, q.components_eq, Component.ofText_eq]
  cases ofFront?_relative h <;> simp [*, Component.climbFrom]

-- Names that the segments have added are taken away before those that were there, of which each step of
-- the climb takes one; the root stays.
theorem foldl_settle_climb {segments names : List Component} (done : List Component)
    (hs : ∀ c ∈ segments, c = .up ∨ c.Plain) (hd : ∀ c ∈ done, c.Plain) (hn : ∀ c ∈ names, c.Plain) :
    segments.foldl settle (done ++ (names ++ [.root])) =
      segments.foldl settle done ++
        (names.drop (Component.climbFrom done.length segments) ++ [.root]) := by
  induction segments generalizing done names
  case nil => simp [Component.climbFrom]
  case cons c segments hi =>
    obtain ⟨hc, hrest⟩ := List.forall_mem_cons.mp hs
    obtain rfl | hc := hc
    case inr =>
      obtain ⟨text, ht⟩ := hc.eq_name
      have h := hi (c :: done) hrest (List.forall_mem_cons.mpr ⟨hc, hd⟩) hn
      simpa [ht, settle, Component.climbFrom] using h
    case inl =>
      cases done
      case cons c done =>
        obtain ⟨hc, hd⟩ := List.forall_mem_cons.mp hd
        obtain ⟨text, ht⟩ := hc.eq_name
        simpa [ht, settle, Component.climbFrom] using hi _ hrest hd hn
      case nil =>
        cases names
        case nil => simpa [settle, Component.climbFrom] using hi _ hrest hd hn
        case cons c names =>
          obtain ⟨hc, hn⟩ := List.forall_mem_cons.mp hn
          obtain ⟨text, ht⟩ := hc.eq_name
          simpa [ht, settle, Component.climbFrom] using hi _ hrest hd hn

-- Seen from an absolute directory, a relative path takes as many names off the directory as it climbs,
-- and adds what it settles to by itself.
theorem settled_join_climb (hc : c.isAbsolute) (hq : ¬q.isAbsolute) :
    ∃ names, settled c.components = .root :: names ∧
      settled (c.join q).components =
        .root :: names.take (names.length - q.climb) ++ settled q.components := by
  obtain ⟨names, hn, hs⟩ := settled_ofText c.text.toList
  have ⟨rest, hr⟩ := isAbsolute_iff.mp hc
  have hb : base c.text.toList = [.root] := by simp [hr, base, Component.ofFront?, settle]
  rw [← c.components_eq, hb] at hs
  have hstack : c.components.foldl settle [] = names.reverse ++ [.root] := by
    rw [← List.reverse_reverse (c.components.foldl settle []), ← settled, hs]
    simp
  refine ⟨names, hs, ?_⟩
  have hplain : ∀ c ∈ names.reverse, c.Plain := by simpa using hn
  have hsegments : ∀ c ∈ Component.ofSegments q.text.toList, c = .up ∨ c.Plain :=
    fun _ => Component.up_or_plain_of_mem
  have h := foldl_settle_climb [] hsegments (by simp) hplain
  rw [settled, foldl_settle_join hq, hstack, foldl_settle_relative hq, ← List.nil_append (_ ++ _), h,
    List.length_nil, ← climb_eq hq, List.drop_reverse, settled, foldl_settle_relative hq]
  simp

theorem settled_root : settled (ofText "/").components = [.root] := by
  decide +kernel

theorem identity_eq_root_iff (hc : c.isAbsolute) :
    c.identity = .ofText "/" ↔ settled c.components = [.root] := by
  have hn : (ofText "/").normalize? = some (.ofText "/") := by
    rw [normalize?, settled_root]
    rfl
  obtain ⟨_, hq, _⟩ := normalize?_of_isAbsolute hc
  have h := identity_eq_iff (p := c) (q := .ofText "/") (by simp [hq]) (by simp [hn])
  rwa [settled_root, identity_of_normalize? hn] at h

-- What a path settles to is left when the directory it is seen from is left as it is.
theorem settled_join_iff (hc : c.isAbsolute) (hq : ¬q.isAbsolute) :
    settled (c.join q).components = settled c.components ++ settled q.components ↔
      q.climb = 0 ∨ c.identity = .ofText "/" := by
  obtain ⟨names, hs, hj⟩ := settled_join_climb hc hq
  rw [hj, identity_eq_root_iff hc, hs, List.append_cancel_right_eq, List.cons_inj_right,
    List.take_eq_self_iff]
  cases names
  case nil       => simp
  case cons c cs => simp; omega

theorem normalize?_absolutize (hc : c.isAbsolute) (p : Path) :
    (c.join p).normalize? = some (c.absolutize p) := by
  have ⟨_, hn, _⟩ := normalize?_of_isAbsolute <| isAbsolute_join (q := p) hc
  rw [absolutize, identity_of_normalize? hn, hn]

theorem isNormal_absolutize (hc : c.isAbsolute) (p : Path) : (c.absolutize p).IsNormal :=
  isNormal_of_normalize? <| normalize?_absolutize hc p

theorem absolutize_absolutize (hc : c.isAbsolute) (p : Path) :
    c.absolutize (c.absolutize p) = c.absolutize p := by
  rw [absolutize_of_isAbsolute <| isAbsolute_absolutize hc, identity_absolutize]

theorem absolutize_eq_iff (hc : c.isAbsolute) :
    c.absolutize p = c.absolutize q ↔ settled (c.join p).components = settled (c.join q).components := by
  rw [← normalize?_eq_iff, normalize?_absolutize hc, normalize?_absolutize hc, Option.some_inj]

-- A path that stands for the same file by itself as it does seen from the directory `c`.
def StaysIn (p c : Path) : Prop :=
  p.isAbsolute ∨ p.climb = 0 ∨ c.identity = .ofText "/"

-- A path may be brought into its normal form before it is seen from a directory, exactly if it stays
-- there.
theorem absolutize_normalize?_iff {place : Path} (hc : c.isAbsolute) (h : p.normalize? = some place) :
    c.absolutize place = c.absolutize p ↔ p.StaysIn c := by
  have hn := isNormal_of_normalize? h
  have hs : settled place.components = settled p.components := by
    rw [hn.settled_eq, settled_eq_components h]
  have ha : place.isAbsolute ↔ p.isAbsolute := by
    rw [← root_mem_settled_iff, hs, root_mem_settled_iff]
  by_cases hp : p.isAbsolute
  case pos =>
    rw [absolutize_of_isAbsolute hp, absolutize_of_isAbsolute <| ha.mpr hp, hn.identity_eq,
      identity_of_normalize? h]
    simp [StaysIn, hp]
  case neg =>
    have hr := mt ha.mp hp
    rw [absolutize_eq_iff hc, settled_join hr (hn.up_notMem hr), hs, eq_comm, settled_join_iff hc hp]
    simp [StaysIn, hp]

-- Where there is no normal form, a path that stays leads to the directory itself.
theorem absolutize_of_normalize?_eq_none (hc : c.isAbsolute) (h : p.normalize? = none)
    (hs : p.StaysIn c) : c.absolutize p = c.identity := by
  have hp : ¬p.isAbsolute := by
    intro hp
    have ⟨_, hn, _⟩ := normalize?_of_isAbsolute hp
    simp [hn] at h
  have hj := (settled_join_iff hc hp).mpr <| hs.resolve_left hp
  rw [normalize?_eq_none_iff.mp h, List.append_nil, ← normalize?_eq_iff, normalize?_absolutize hc] at hj
  exact (identity_of_normalize? hj.symm).symm

-- A relative normal path leads to something below the directory that it is seen from.
theorem IsNormal.identity_ne_absolutize (hp : p.IsNormal) (hr : ¬p.isAbsolute) (hc : c.isAbsolute) :
    ¬c.identity == c.absolutize p := by
  have ⟨q, hq, _⟩ := normalize?_of_isAbsolute hc
  rw [identity_of_normalize? hq, (isNormal_of_normalize? hq).beq_iff_eq (isNormal_absolutize hc p),
    ← Option.some_inj, ← hq, ← normalize?_absolutize hc, normalize?_eq_iff,
    settled_join hr (hp.up_notMem hr), List.self_eq_append_right, ← normalize?_eq_none_iff]
  simp [show p.normalize? = some p from hp]

end Path

end ScriptMaps
