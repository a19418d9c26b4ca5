import Mathlib.Data.List.Find
import ScriptMaps.Include.Resolver
import ScriptMaps.Proofs.Path.Normal

namespace ScriptMaps

-- Paths are compared by their components, so the library's lemma on members does not apply.
theorem mem_of_mem_eraseDups {α : Type} [BEq α] {a : α} (as : List α) (h : a ∈ as.eraseDups) :
    a ∈ as := by
  match as with
  | []      => simp at h
  | b :: bs =>
    rw [List.eraseDups_cons, List.mem_cons] at h
    cases h
    case inl h => simp [h]
    case inr h =>
      have hm := mem_of_mem_eraseDups _ h
      exact List.mem_cons_of_mem _ (List.mem_filter.mp hm).left
termination_by as.length
decreasing_by exact Nat.lt_succ_of_le <| List.length_filter_le _ _

-- The first of its kind is found whether or not those that count as the same come only once.
theorem find?_eraseDups {α : Type} [BEq α] {p : α → Bool} (as : List α)
    (h : ∀ a ∈ as, ∀ b ∈ as, a == b → p a = p b) : as.eraseDups.find? p = as.find? p := by
  match as with
  | []      => rfl
  | a :: as =>
    have ⟨ha, has⟩ := List.forall_mem_cons.mp h
    have hf := find?_eraseDups (p := p) (as.filter (!· == a)) <| by
      intro b hb c hc
      exact has b (List.mem_filter.mp hb).left c <| .tail _ (List.mem_filter.mp hc).left
    rw [List.eraseDups_cons, List.find?_cons, List.find?_cons, hf, List.find?_filter]
    cases hp : p a
    case true  => rfl
    case false =>
      refine List.find?_congr ?_
      intro b hb
      cases hba : b == a
      case false => simp
      case true  => simp [has b hb a (.head _) hba, hp]
termination_by as.length
decreasing_by exact Nat.lt_succ_of_le <| List.length_filter_le _ _

-- The file that a directive resolves to, if there is one.
def Resolution.target? : Resolution → Option Path
  | .found path => some path
  | .missing _  => none

namespace Resolver

variable {r : Resolver} {sources : Sources} {file target : Path} {directive : Include}

-- The places that the candidates come to beyond those searched before are searched once each, as far as the
-- first that is a file.
theorem probe_eq (sources : Sources) (searched cs : List Path) :
    let fresh := ((cs.filterMap Path.normalize?).filter (!searched.contains ·)).eraseDups
    probe sources searched cs =
      match fresh.find? sources.isFile with
      | some place => .found place
      | none => .missing (searched ++ fresh) := by
  induction cs generalizing searched
  case nil => simp [probe]
  case cons c cs hi =>
    rw [probe]
    cases hn : c.normalize?
    case none => simpa [hn] using hi searched
    case some place =>
      cases hs : searched.contains place
      case true => simpa [hn, hs] using hi searched
      case false =>
        cases hf : sources.isFile place
        case true  => simp [hn, hs, hf, List.eraseDups_cons]
        case false => simp [hn, hs, hf, List.eraseDups_cons, hi, Bool.and_comm]

theorem resolve_eq (r : Resolver) (sources : Sources) (file : Path) (directive : Include) :
    r.resolve sources file directive =
      match (r.places file directive).find? sources.isFile with
      | some place => .found place
      | none => .missing (r.places file directive) := by
  have hnew : ((r.candidates file directive).filterMap Path.normalize?).filter (!([] : List Path).contains ·) =
      (r.candidates file directive).filterMap Path.normalize? :=
    List.filter_eq_self.mpr fun _ _ => rfl
  rw [resolve, probe_eq]
  simp only [hnew, places, List.nil_append]

theorem find?_of_resolve (h : r.resolve sources file directive = .found target) :
    (r.places file directive).find? sources.isFile = some target := by
  rw [resolve_eq] at h
  split at h <;> cases h
  case h_1.refl hf => exact hf

theorem mem_places_of_resolve (h : r.resolve sources file directive = .found target) :
    target ∈ r.places file directive :=
  List.mem_of_find?_eq_some <| find?_of_resolve h

theorem isFile_of_resolve (h : r.resolve sources file directive = .found target) :
    sources.isFile target :=
  List.find?_some <| find?_of_resolve h

theorem candidate_of_mem_places (h : target ∈ r.places file directive) :
    ∃ candidate ∈ r.candidates file directive, candidate.normalize? = some target :=
  List.mem_filterMap.mp <| mem_of_mem_eraseDups _ h

theorem isNormal_of_resolve (h : r.resolve sources file directive = .found target) :
    target.IsNormal :=
  have ⟨_, _, hn⟩ := candidate_of_mem_places <| mem_places_of_resolve h
  Path.isNormal_of_normalize? hn

-- The target of a directive is the first candidate that is a file, in its normal form.
theorem target?_resolve :
    (r.resolve sources file directive).target? =
      ((r.candidates file directive).filterMap Path.normalize?).find? sources.isFile := by
  rw [← find?_eraseDups]
  case h =>
    intro p hp q hq he
    have ⟨_, _, hp⟩ := List.mem_filterMap.mp hp
    have ⟨_, _, hq⟩ := List.mem_filterMap.mp hq
    rw [Path.isNormal_of_normalize? hp |>.beq_iff_eq (Path.isNormal_of_normalize? hq) |>.mp he]
  rw [resolve_eq, places]
  split
  case h_1 hf => exact hf.symm
  case h_2 hf => exact hf.symm

-- The settings do not leave it to the working directory where a file is looked for.
structure IsAbsolute (r : Resolver) : Prop where
  workingDir    : r.workingDir.isAbsolute
  workspaceRoot : ∀ root ∈ r.workspaceRoot, root.isAbsolute
  includePaths  : ∀ dir ∈ r.includePaths, dir.isAbsolute

namespace IsAbsolute

theorem base (hr : r.IsAbsolute) : (r.workspaceRoot.getD r.workingDir).isAbsolute := by
  cases h : r.workspaceRoot
  case none      => exact hr.workingDir
  case some root => exact hr.workspaceRoot root h

theorem absolutize (hr : r.IsAbsolute) (p : Path) : (r.absolutize p).isAbsolute :=
  Path.isAbsolute_absolutize hr.base

theorem candidates (hr : r.IsAbsolute) (hf : file.isAbsolute) {candidate : Path}
    (h : candidate ∈ r.candidates file directive) : candidate.isAbsolute := by
  simp only [Resolver.candidates] at h
  split at h
  case isTrue ha => exact List.mem_singleton.mp h ▸ ha
  case isFalse =>
    split at h
    case h_1 =>
      cases h
      case head   => exact Path.isAbsolute_join <| Path.isAbsolute_directory hf
      case tail h =>
        have ⟨root, hroot, he⟩ := Option.map_eq_some_iff.mp <| Option.mem_toList.mp h
        exact he ▸ Path.isAbsolute_join (hr.workspaceRoot root hroot)
    case h_2 =>
      have ⟨dir, hdir, he⟩ := List.mem_map.mp h
      exact he ▸ Path.isAbsolute_join (hr.includePaths dir hdir)

theorem resolve (hr : r.IsAbsolute) (hf : file.isAbsolute)
    (h : r.resolve sources file directive = .found target) : target.isAbsolute := by
  have ⟨candidate, hc, hn⟩ := candidate_of_mem_places <| mem_places_of_resolve h
  exact Path.identity_of_normalize? hn ▸ Path.isAbsolute_identity (hr.candidates hf hc)

end IsAbsolute

end Resolver

end ScriptMaps
