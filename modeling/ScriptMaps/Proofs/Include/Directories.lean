import ScriptMaps.Proofs.Include.Resolution
import ScriptMaps.Proofs.Path.Climb

namespace ScriptMaps

namespace Sources

-- Files whose relative paths are taken from the directory `dir`.
structure TakenFrom (sources : Sources) (dir : Path) : Prop where
  isFile_absolutize : ∀ p, p.IsNormal → sources.isFile (dir.absolutize p) = sources.isFile p
  not_isFile        : ¬sources.isFile dir.identity

-- The only file is `file`, and relative paths are taken from `dir`.
def only (dir file : Path) : Sources where
  isFile p := dir.absolutize p == file
  read p   := if dir.absolutize p == file then .ok "" else .error (.missing p)

@[simp]
theorem isFile_only (dir file p : Path) : (only dir file).isFile p = (dir.absolutize p == file) :=
  rfl

theorem takenFrom_only {dir file : Path} (hd : dir.isAbsolute) (hf : ¬dir.identity == file) :
    (only dir file).TakenFrom dir where
  isFile_absolutize p _ := by simp [Path.absolutize_absolutize hd]
  not_isFile := by
    rwa [isFile_only, Path.absolutize_of_isAbsolute <| Path.isAbsolute_identity hd,
      Path.identity_identity]

end Sources

namespace Resolver

variable {r : Resolver} {sources : Sources} {file : Path} {directive : Include}

-- The resolver with its library directories spelled from the root on.
def spelledOut (r : Resolver) : Resolver :=
  { r with includePaths := r.includePaths.map r.workingDir.join }

-- Under both spellings of the library directories a directive leads to the same file, or to none.
def SameSpelledOut (r : Resolver) (sources : Sources) (file : Path) (directive : Include) : Prop :=
  (r.resolveFrom sources file directive).target?.map r.workingDir.absolutize =
    (r.spelledOut.resolveFrom sources file directive).target?.map r.workingDir.absolutize

-- The place of a target in a directory is found under one spelling as it is under the other.
theorem filter_normalize?_join {c dir target : Path} (hc : c.isAbsolute) (hs : sources.TakenFrom c)
    (ht : ¬target.isAbsolute) (h : (dir.join target).StaysIn c) :
    ((dir.join target).normalize?.filter sources.isFile).map c.absolutize =
      (((c.join dir).join target).normalize?.filter sources.isFile).map c.absolutize := by
  rw [Path.normalize?_join_join ht, Path.normalize?_absolutize hc]
  cases hp : (dir.join target).normalize?
  case none =>
    have hd : ¬sources.isFile (c.absolutize <| dir.join target) := by
      rw [Path.absolutize_of_normalize?_eq_none hc hp h]
      exact hs.not_isFile
    simp [Option.filter, hd]
  case some place =>
    have he : c.absolutize place = c.absolutize (dir.join target) :=
      (Path.absolutize_normalize?_iff hc hp).mpr h
    have hf := hs.isFile_absolutize place <| Path.isNormal_of_normalize? hp
    rw [he] at hf
    cases hi : sources.isFile place <;> simp [Option.filter, hf, hi, he, Path.absolutize_absolutize hc]

-- The first candidate is found, or else one of the others.
theorem find?_filterMap_cons {α : Type} {f : α → Option Path} {p : Path → Bool} (a : α) (as : List α) :
    ((a :: as).filterMap f).find? p = ((f a).filter p).or ((as.filterMap f).find? p) := by
  cases h : f a
  case none   => rw [List.filterMap_cons_none h, Option.filter_none, Option.none_or]
  case some b =>
    rw [List.filterMap_cons_some h, List.find?_cons, Option.filter]
    cases p b <;> rfl

-- What counts is what each directory leads to by itself.
theorem find?_filterMap_congr {α : Type} {f g : α → Option Path} {p : Path → Bool} {m : Path → Path}
    {as : List α} (h : ∀ a ∈ as, ((f a).filter p).map m = ((g a).filter p).map m) :
    ((as.filterMap f).find? p).map m = ((as.filterMap g).find? p).map m := by
  induction as
  case nil => rfl
  case cons a as hi =>
    have ⟨ha, h⟩ := List.forall_mem_cons.mp h
    rw [find?_filterMap_cons, find?_filterMap_cons, Option.map_or, Option.map_or, ha, hi h]

theorem target?_library (hk : directive.kind = .library)
    (ht : ¬(Path.ofWritten directive.path).isAbsolute) :
    (r.resolveFrom sources file directive).target? =
      (r.includePaths.filterMap fun dir => (dir.join <| .ofWritten directive.path).normalize?).find?
        sources.isFile := by
  have hc : r.candidates (r.absolutize file) directive =
      r.includePaths.map (·.join <| .ofWritten directive.path) := by
    simp [candidates, ht, hk]
  rw [resolveFrom, target?_resolve, hc, List.filterMap_map]
  rfl

theorem sameSpelledOut (hc : r.workingDir.isAbsolute) (hk : directive.kind = .library)
    (hs : sources.TakenFrom r.workingDir)
    (h : ∀ dir ∈ r.includePaths, (dir.join <| .ofWritten directive.path).StaysIn r.workingDir) :
    r.SameSpelledOut sources file directive := by
  rw [SameSpelledOut]
  by_cases ht : (Path.ofWritten directive.path).isAbsolute
  case pos => simp [resolveFrom, target?_resolve, candidates, ht]
  case neg =>
    rw [target?_library hk ht, target?_library hk ht, spelledOut, List.filterMap_map]
    apply find?_filterMap_congr
    intro dir hd
    rw [Function.comp_apply, filter_normalize?_join hc hs ht (h dir hd)]

-- A place that climbs out of the working directory is searched below it all the same. A file there is
-- found under the relative spelling only.
theorem target?_only {dir place : Path} (hc : r.workingDir.isAbsolute) (hk : directive.kind = .library)
    (hr : r.includePaths = [dir])
    (hp : (dir.join <| .ofWritten directive.path).normalize? = some place)
    (hs : ¬(dir.join <| .ofWritten directive.path).StaysIn r.workingDir) (file : Path) :
    let sources := Sources.only r.workingDir (r.workingDir.absolutize place)
    (r.resolveFrom sources file directive).target? = some place ∧
      (r.spelledOut.resolveFrom sources file directive).target? = none := by
  intro sources
  have ht : ¬(Path.ofWritten directive.path).isAbsolute := by
    intro ht
    rw [Path.join_of_isAbsolute ht] at hs
    exact hs <| .inl ht
  have hfile : sources.isFile place := Path.beq_iff.mpr rfl
  have hnot : ¬sources.isFile (r.workingDir.absolutize <| dir.join <| .ofWritten directive.path) := by
    intro h
    rw [← Path.absolutize_normalize?_iff hc hp] at hs
    rw [Sources.isFile_only, Path.absolutize_absolutize hc,
      (Path.isNormal_absolutize hc _).beq_iff_eq (Path.isNormal_absolutize hc _)] at h
    exact hs h.symm
  rw [target?_library hk ht, target?_library hk ht, spelledOut, hr]
  simp [hp, hfile, hnot, Path.normalize?_join_join ht, Path.normalize?_absolutize hc]

theorem takenFrom_place {dir place : Path} (hc : r.workingDir.isAbsolute)
    (hp : (dir.join <| .ofWritten directive.path).normalize? = some place)
    (hs : ¬(dir.join <| .ofWritten directive.path).StaysIn r.workingDir) :
    (Sources.only r.workingDir <| r.workingDir.absolutize place).TakenFrom r.workingDir := by
  have hn := Path.isNormal_of_normalize? hp
  refine Sources.takenFrom_only hc <| hn.identity_ne_absolutize ?_ hc
  rw [← Path.root_mem_settled_iff, hn.settled_eq, ← Path.settled_eq_components hp,
    Path.root_mem_settled_iff]
  exact fun ha => hs <| .inl ha

-- Library directories mean the same under relative and absolute spellings as far as the places in them
-- stay in the working directory: a directive leads to the same file under both, or to none. For a single
-- directory it is so over all files there may be only if the place stays there.
theorem sameSpelledOut_iff_staysIn (r : Resolver) (directive : Include) (hc : r.workingDir.isAbsolute)
    (hk : directive.kind = .library) :
    (∀ sources file, sources.TakenFrom r.workingDir →
      (∀ dir ∈ r.includePaths, (dir.join <| .ofWritten directive.path).StaysIn r.workingDir) →
      r.SameSpelledOut sources file directive) ∧
    ∀ dir, r.includePaths = [dir] → (dir.join <| .ofWritten directive.path).normalize? ≠ none →
      ((∀ sources file, sources.TakenFrom r.workingDir → r.SameSpelledOut sources file directive) ↔
        (dir.join <| .ofWritten directive.path).StaysIn r.workingDir) := by
  refine ⟨fun _ _ => sameSpelledOut hc hk, ?_⟩
  intro dir hr hn
  constructor
  case mpr => exact fun h _ _ hs => sameSpelledOut hc hk hs <| by simpa [hr] using h
  case mp =>
    intro h
    by_contra hs
    have ⟨place, hp⟩ := Option.ne_none_iff_exists'.mp hn
    have ⟨hfound, hnone⟩ := target?_only hc hk hr hp hs r.workingDir
    have hsame := h _ r.workingDir <| takenFrom_place hc hp hs
    rw [SameSpelledOut, hfound, hnone] at hsame
    simp at hsame

-- A directory that goes down and up again before it leads to the file, and one with a root. The first one
-- means the same under both spellings; one that climbs out of the working directory does not.
theorem sameSpelledOut_nearby :
    let c := Path.ofText "/w/p"
    let file := Path.ofText "main.au3"
    let directive : Include := ⟨.library, "x.au3", 0⟩
    let sources := Sources.only c (.ofText "/w/p/lib/x.au3")
    let r := Resolver.mk c none [.ofText "sub/../lib", .ofText "/udf"] 3
    let climbing := Resolver.mk c none [.ofText "../lib"] 3
    sources.TakenFrom c ∧
    (∀ dir ∈ r.includePaths, (dir.join <| .ofWritten directive.path).StaysIn c) ∧
    r.SameSpelledOut sources file directive ∧
    (r.resolveFrom sources file directive).target?.map (·.text) = some "lib/x.au3" ∧
    (r.spelledOut.resolveFrom sources file directive).target?.map (·.text) = some "/w/p/lib/x.au3" ∧
    ¬∀ sources file, sources.TakenFrom c → climbing.SameSpelledOut sources file directive := by
  intro c file directive sources r climbing
  have hc : c.isAbsolute := by decide +kernel
  have hs : sources.TakenFrom c := Sources.takenFrom_only hc (by decide +kernel)
  have hstay : ∀ dir ∈ r.includePaths, (dir.join <| .ofWritten directive.path).StaysIn c :=
    List.forall_mem_cons.mpr ⟨.inr <| .inl <| by decide +kernel,
      List.forall_mem_singleton.mpr <| .inl <| by decide +kernel⟩
  have ⟨hsame, _⟩ := r.sameSpelledOut_iff_staysIn directive hc rfl
  have ⟨_, hexact⟩ := climbing.sameSpelledOut_iff_staysIn directive hc rfl
  refine ⟨hs, hstay, hsame _ _ hs hstay, by decide +kernel, by decide +kernel, ?climb⟩
  rw [hexact _ rfl <| Option.isSome_iff_ne_none.mp <| by decide +kernel]
  rintro (h | h | h)
  · exact absurd h <| by decide +kernel
  · exact absurd h <| by decide +kernel
  · exact absurd (congrArg Path.text h) <| by decide +kernel

-- In `/w/p` the directory `../lib` is searched as `lib`. A file in `/w/p/lib` is found that is not in the
-- directory, and the file that is in it, in `/w/lib`, is not found.
theorem climbing_directory_displaced :
    let c := Path.ofText "/w/p"
    let file := Path.ofText "main.au3"
    let directive : Include := ⟨.library, "x.au3", 0⟩
    let r := Resolver.mk c none [.ofText "../lib"] 3
    let below := Sources.only c (.ofText "/w/p/lib/x.au3")
    let beside := Sources.only c (.ofText "/w/lib/x.au3")
    below.TakenFrom c ∧ beside.TakenFrom c ∧
    (r.resolveFrom below file directive).target?.map (·.text) = some "lib/x.au3" ∧
    (r.spelledOut.resolveFrom below file directive).target?.isNone ∧
    (r.resolveFrom beside file directive).target?.isNone ∧
    (r.spelledOut.resolveFrom beside file directive).target?.map (·.text) = some "/w/lib/x.au3" := by
  intro c file directive r below beside
  have hc : c.isAbsolute := by decide +kernel
  refine ⟨Sources.takenFrom_only hc <| by decide +kernel, Sources.takenFrom_only hc <| by decide +kernel,
    ?_⟩
  decide +kernel

end Resolver

end ScriptMaps
