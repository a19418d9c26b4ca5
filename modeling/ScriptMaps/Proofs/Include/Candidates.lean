import ScriptMaps.Proofs.Include.Resolution

namespace ScriptMaps

-- The members of a list without those that come again. A new member is listed where it comes, and one
-- that was there before is not.
inductive FirstOccurrences {α : Type} : List α → List α → Prop
  | nil : FirstOccurrences [] []
  | new {a : α} {as once : List α} (first : FirstOccurrences as once) (notMem : a ∉ as) :
      FirstOccurrences (as ++ [a]) (once ++ [a])
  | again {a : α} {as once : List α} (first : FirstOccurrences as once) (mem : a ∈ as) :
      FirstOccurrences (as ++ [a]) once

namespace FirstOccurrences

variable {α : Type} {as once once' : List α}

theorem mem_iff (h : FirstOccurrences as once) (a : α) : a ∈ once ↔ a ∈ as := by
  induction h
  case nil => rfl
  case new hi => simp [hi]
  case again b _ _ _ hb hi =>
    rw [hi, List.mem_append, List.mem_singleton]
    exact ⟨.inl, fun ha => ha.elim id fun he => he ▸ hb⟩

theorem of_nil (h : FirstOccurrences [] once) : once = [] := by
  generalize hn : ([] : List α) = as at h
  cases h
  case nil => rfl
  all_goals simp at hn

theorem of_append {a : α} (h : FirstOccurrences (as ++ [a]) once) :
    a ∉ as ∧ (∃ front, FirstOccurrences as front ∧ once = front ++ [a]) ∨
      a ∈ as ∧ FirstOccurrences as once := by
  generalize hs : as ++ [a] = all at h
  cases h
  case nil => simp at hs
  case new front first ha =>
    obtain ⟨rfl, ⟨⟩⟩ := List.append_inj' hs rfl
    exact .inl ⟨ha, front, first, rfl⟩
  case again ha first =>
    obtain ⟨rfl, ⟨⟩⟩ := List.append_inj' hs rfl
    exact .inr ⟨ha, first⟩

theorem unique (h : FirstOccurrences as once) (h' : FirstOccurrences as once') : once = once' := by
  induction h generalizing once'
  case nil => rw [h'.of_nil]
  case new ha hi =>
    obtain ⟨_, _, first, rfl⟩ | ⟨hb, _⟩ := h'.of_append
    case inl => rw [hi first]
    case inr => exact absurd hb ha
  case again ha hi =>
    obtain ⟨hb, _⟩ | ⟨_, first⟩ := h'.of_append
    case inl => exact absurd ha hb
    case inr => exact hi first

-- The members `seen` are those of the list `done`, last one first.
theorem loop [BEq α] {done seen : List α} (h : FirstOccurrences done seen.reverse)
    (hb : ∀ a ∈ done ++ as, ∀ b ∈ done ++ as, a == b ↔ a = b) :
    FirstOccurrences (done ++ as) (List.eraseDupsBy.loop (· == ·) as seen) := by
  induction as generalizing done seen
  case nil => simpa [List.eraseDupsBy.loop] using h
  case cons a as hi =>
    rw [List.append_cons] at hb ⊢
    have hseen : seen.any (a == ·) ↔ a ∈ done := by
      have hmem (b : α) : b ∈ seen ↔ b ∈ done := by rw [← h.mem_iff b, List.mem_reverse]
      rw [List.any_eq_true]
      constructor
      case mp =>
        intro ⟨b, hm, he⟩
        have hd := (hmem b).mp hm
        exact (hb a (by simp) b (by simp [hd])).mp he ▸ hd
      case mpr => exact fun hd => ⟨a, (hmem a).mpr hd, (hb a (by simp) a (by simp)).mpr rfl⟩
    rw [List.eraseDupsBy.loop]
    split
    case h_1 hs => exact hi (.again h <| hseen.mp hs) hb
    case h_2 hs =>
      refine hi ?_ hb
      rw [List.reverse_cons]
      exact .new h fun hd => by simp [hseen.mpr hd] at hs

theorem eraseDups [BEq α] (hb : ∀ a ∈ as, ∀ b ∈ as, a == b ↔ a = b) : FirstOccurrences as as.eraseDups := by
  have h : FirstOccurrences [] ([] : List α).reverse := .nil
  exact h.loop (by simpa using hb)

end FirstOccurrences

namespace Resolver

variable {r : Resolver} {sources : Sources} {file target : Path} {directive : Include}

-- The directories that the target of a directive in `file` is looked for in.
def bases (r : Resolver) (file : Path) : IncludeKind → List Path
  | .relative => file.directory :: r.workspaceRoot.toList
  | .library  => r.includePaths

-- The places of a directive's target, in order and in normal form: the target itself if it is absolute, or
-- else the target in each of the directories. What has no normal form is no place.
def probes (r : Resolver) (file : Path) (directive : Include) : List Path :=
  let target := Path.ofWritten directive.path
  if target.isAbsolute then target.normalize?.toList
  else (r.bases file directive.kind).filterMap fun base => (base.join target).normalize?

theorem filterMap_candidates (r : Resolver) (file : Path) (directive : Include) :
    (r.candidates file directive).filterMap Path.normalize? = r.probes file directive := by
  simp only [candidates, probes]
  split
  case isTrue =>
    cases hn : (Path.ofWritten directive.path).normalize? <;> simp [hn]
  case isFalse =>
    cases directive.kind
    case library =>
      simp only [bases, List.filterMap_map]
      rfl
    case relative =>
      cases hr : r.workspaceRoot <;> simp [bases, hr, List.filterMap_cons]

theorem places_eq (r : Resolver) (file : Path) (directive : Include) :
    r.places file directive = (r.probes file directive).eraseDups := by
  rw [places, filterMap_candidates]

theorem isNormal_of_mem_probes (h : target ∈ r.probes file directive) : target.IsNormal := by
  rw [← filterMap_candidates] at h
  have ⟨_, _, hn⟩ := List.mem_filterMap.mp h
  exact Path.isNormal_of_normalize? hn

theorem firstOccurrences_places (r : Resolver) (file : Path) (directive : Include) :
    FirstOccurrences (r.probes file directive) (r.places file directive) := by
  rw [places_eq]
  refine .eraseDups fun p hp q hq => ?_
  exact (isNormal_of_mem_probes hp).beq_iff_eq (isNormal_of_mem_probes hq)

theorem resolve_eq_found_iff :
    r.resolve sources file directive = .found target ↔
      (r.probes file directive).find? sources.isFile = some target := by
  rw [← filterMap_candidates, ← target?_resolve]
  cases r.resolve sources file directive <;> simp [Resolution.target?]

theorem resolve_eq_missing_iff {searched : List Path} :
    r.resolve sources file directive = .missing searched ↔
      (r.probes file directive).find? sources.isFile = none ∧ r.places file directive = searched := by
  rw [← filterMap_candidates, ← target?_resolve, resolve_eq]
  split <;> simp [Resolution.target?]

-- What a directive resolves to depends on its places and on what is a file there.
theorem resolve_congr_probes {r' : Resolver} {file' : Path}
    (h : r.probes file directive = r'.probes file' directive) :
    r.resolve sources file directive = r'.resolve sources file' directive := by
  rw [resolve_eq, resolve_eq, places_eq, places_eq, h]

theorem probes_append (r : Resolver) (file : Path) (directive : Include) (dirs : List Path) :
    r.probes file directive <+:
      probes { r with includePaths := r.includePaths ++ dirs } file directive := by
  simp only [probes]
  split
  case isTrue  => exact List.prefix_rfl
  case isFalse =>
    cases directive.kind
    case relative => exact List.prefix_rfl
    case library  => exact (List.prefix_append _ _).filterMap _

-- A directive resolves to the first of its places that is a file. If there is no such place, it resolves to
-- none, and the places are reported in order and once each.
theorem resolve_eq_first_probe (r : Resolver) (sources : Sources) (file : Path) (directive : Include) :
    (∀ target, r.resolve sources file directive = .found target ↔
      ∃ before after, r.probes file directive = before ++ target :: after ∧ sources.isFile target ∧
        ∀ p ∈ before, ¬sources.isFile p) ∧
    (∀ searched, r.resolve sources file directive = .missing searched ↔
      (∀ p ∈ r.probes file directive, ¬sources.isFile p) ∧
        FirstOccurrences (r.probes file directive) searched) ∧
    (∀ dirs target, r.resolve sources file directive = .found target →
      resolve { r with includePaths := r.includePaths ++ dirs } sources file directive = .found target) ∧
    (directive.kind = .library → ∀ file' root,
      resolve { r with workspaceRoot := root } sources file' directive = r.resolve sources file directive) ∧
    (directive.kind = .relative → ∀ dirs,
      resolve { r with includePaths := dirs } sources file directive = r.resolve sources file directive) := by
  refine ⟨?found, ?missing, ?more, ?library, ?relative⟩
  case found =>
    intro target
    rw [resolve_eq_found_iff, List.find?_eq_some_iff_append]
    constructor
    case mp  => exact fun ⟨hf, before, after, hp, hn⟩ => ⟨before, after, hp, hf, by simpa using hn⟩
    case mpr => exact fun ⟨before, after, hp, hf, hn⟩ => ⟨hf, before, after, hp, by simpa using hn⟩
  case missing =>
    intro searched
    rw [resolve_eq_missing_iff, List.find?_eq_none]
    have hplaces := r.firstOccurrences_places file directive
    exact and_congr_right fun _ => ⟨fun he => he ▸ hplaces, fun h => hplaces.unique h⟩
  case more =>
    intro dirs target h
    have ⟨rest, hp⟩ := r.probes_append file directive dirs
    rw [resolve_eq_found_iff] at h ⊢
    rw [← hp, List.find?_append, h, Option.some_or]
  case library =>
    intro hk file' root
    apply resolve_congr_probes
    simp only [probes, hk, bases]
  case relative =>
    intro hk dirs
    apply resolve_congr_probes
    simp only [probes, hk, bases]

-- Two of the directories are the same under different spellings. The file is in the last one.
theorem resolve_eq_first_probe_library :
    let lib := Path.ofText "/lib/a/b.au3"
    let udf := Path.ofText "/udf/a/b.au3"
    let main := Path.ofText "/w/main.au3"
    let dirs := [Path.ofText "/lib", .ofText "/x/../lib/.", .ofText "/udf"]
    let r := Resolver.mk (.ofText "/w") (some <| .ofText "/w") dirs 3
    let directive : Include := ⟨.library, "a\\b.au3", 0⟩
    let sources (file : Path) : Sources := ⟨(· == file), fun p => .error (.missing p)⟩
    r.probes main directive = [lib, lib, udf] ∧
    r.resolve (sources udf) main directive = .found udf ∧
    r.resolve (sources main) main directive = .missing [lib, udf] ∧
    resolve { r with includePaths := r.includePaths ++ [.ofText "/"] } (sources udf) main directive =
      .found udf ∧
    resolve { r with workspaceRoot := none } (sources main) lib directive = .missing [lib, udf] ∧
    resolve { r with includePaths := [] } (sources udf) main { directive with kind := .relative } =
      r.resolve (sources udf) main { directive with kind := .relative } := by
  intro lib udf main dirs r directive sources
  have hprobes : r.probes main directive = [lib, lib, udf] :=
    (List.map_inj_right fun _ _ => Path.ext).mp (by decide +kernel)
  have hne : lib ≠ udf := fun h => absurd (congrArg Path.text h) (by decide +kernel)
  have honce : FirstOccurrences [lib, lib, udf] [lib, udf] :=
    .new (.again (.new .nil (by simp)) (by simp)) (by simp [hne.symm])
  have ⟨hfound, _, hmore, _⟩ := r.resolve_eq_first_probe (sources udf) main directive
  have ⟨_, hmissing, _, hlibrary, _⟩ := r.resolve_eq_first_probe (sources main) main directive
  have ⟨_, _, _, _, hrelative⟩ :=
    r.resolve_eq_first_probe (sources udf) main { directive with kind := .relative }
  have hudf : r.resolve (sources udf) main directive = .found udf :=
    (hfound udf).mpr ⟨[lib, lib], [], hprobes, by decide +kernel, by decide +kernel⟩
  have hnone : r.resolve (sources main) main directive = .missing [lib, udf] :=
    (hmissing _).mpr ⟨by rw [hprobes]; decide +kernel, hprobes ▸ honce⟩
  exact ⟨hprobes, hudf, hnone, hmore _ _ hudf, (hlibrary rfl lib none).trans hnone, hrelative rfl []⟩

end Resolver

end ScriptMaps
