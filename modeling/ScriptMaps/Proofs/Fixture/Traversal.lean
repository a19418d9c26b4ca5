import ScriptMaps.Proofs.Fixture.Contents
import ScriptMaps.Proofs.Include.Candidates
import ScriptMaps.Proofs.Include.Recursion
import ScriptMaps.Proofs.Path.Names
import ScriptMaps.Proofs.Path.Table

namespace ScriptMaps
open Text

-- A walk from a file that can be read follows the file's directives.
theorem Resolver.record_traverse {r : Resolver} {sources : Sources} {p : Path} {text : String}
    (hf : sources.isFile (r.absolutize p)) (ht : sources.read (r.absolutize p) = .ok text) :
    r.traverse sources p =
      ((Visit.start (r.absolutize p)).followAll r sources (r.absolutize p) 0
        (Include.ofText text)).record := by
  have hs : Walk.start sources (r.absolutize p) =
      (Visit.start (r.absolutize p)).resume [⟨r.absolutize p, 0, Include.ofText text⟩] := by
    simp [Walk.start, Walk.enter, hf, ht, Visit.resume, Visit.start]
  rw [traverse, hs, Walk.run_frame, Walk.run_of_stack_eq_nil rfl]
  rfl

theorem eraseDups_append_singleton {α : Type} [DecidableEq α] (as : List α) (a : α) :
    (as ++ [a]).eraseDups = if a ∈ as then as.eraseDups else as.eraseDups ++ [a] := by
  have hone : [a].eraseDups = [a] := eraseDups_of_nodup (List.nodup_singleton a)
  rw [List.eraseDups_append]
  split <;> simp_all [List.removeAll]

theorem Path.ofWritten_of_notMem {text : String} (h : '\\' ∉ text.toList) :
    ofWritten text = ofText text := by
  have hsame : ∀ c ∈ text.toList, (if c = '\\' then '/' else c) = c := by
    intro c hc
    have hn : c ≠ '\\' := fun he => h (he ▸ hc)
    rw [if_neg hn]
  rw [ofWritten, List.map_congr_left hsame, List.map_id', String.ofList_toList]

namespace Fixture

open Statement

def file (d : Path) (i : Nat) : Path :=
  d.entry [fileName i]

def library (d : Path) (n : Nat) : Path :=
  d.entry [libraryDir, libraryName n]

-- The settings for a workspace in the directory `d`.
def resolver (workingDir d : Path) (maxDepth : Nat) : Resolver where
  workingDir    := workingDir
  workspaceRoot := some d
  includePaths  := [d.join (.ofText libraryDir)]
  maxDepth      := maxDepth

-- Sources that have the files of a workspace in the directory `d`.
structure HeldBy (x : Fixture) (sources : Sources) (d : Path) : Prop where
  isFile : ∀ f ∈ x.files, sources.isFile (d.entry f.1)
  read   : ∀ f ∈ x.files, sources.read (d.entry f.1) = .ok f.2

-- The files of a workspace in the directory `d`, and no others.
def inMemory (x : Fixture) (d : Path) : MemoryFiles where
  texts := ⟨x.files.map fun f => (d.entry f.1, f.2)⟩

-- How many files of the chain are entered.
def chainLength (x : Fixture) (maxDepth : Nat) : Nat :=
  min x.chainDepth (min (x.fileCount - 1) maxDepth)

-- How many files, from the first one on, have directives for library files that are followed.
def followedFiles (x : Fixture) (maxDepth : Nat) : Nat :=
  if x.chainLength maxDepth < maxDepth then x.chainLength maxDepth + 1 else x.chainLength maxDepth

-- The numbers of the library files that are entered until the walk is back at the file `k`.
def librariesFrom (x : Fixture) (maxDepth k : Nat) : List Nat :=
  if 0 < x.libraryFiles then
    ((List.range' k (x.followedFiles maxDepth - k)).reverse.map (· % x.libraryFiles)).eraseDups
  else []

variable {x : Fixture} {d workingDir : Path} {sources : Sources} {maxDepth : Nat}

theorem notMem_digits {c : Char} (hc : ¬isPlain c) (n : Nat) : c ∉ digits n :=
  fun hm => hc (isPlain_of_mem_digits hm)

theorem isName_fileName (i : Nat) : IsName (fileName i) :=
  .of_head (toList_fileName i) (by decide) (by simp [toList_fileName, notMem_digits, isPlain])

theorem isName_libraryName (n : Nat) : IsName (libraryName n) :=
  .of_head (toList_libraryName n) (by decide) (by simp [toList_libraryName, notMem_digits, isPlain])

theorem isName_libraryDir : IsName libraryDir :=
  .of_head rfl (by decide) (by decide)

theorem ofWritten_fileName (i : Nat) : Path.ofWritten (fileName i) = .ofText (fileName i) :=
  Path.ofWritten_of_notMem (by simp [toList_fileName, notMem_digits, isPlain])

theorem ofWritten_libraryName (n : Nat) : Path.ofWritten (libraryName n) = .ofText (libraryName n) :=
  Path.ofWritten_of_notMem (by simp [toList_libraryName, notMem_digits, isPlain])

-- A directory that a workspace can be made up in.
structure IsPlace (d : Path) : Prop where
  isAbsolute : d.isAbsolute
  isNormal   : d.IsNormal

namespace IsPlace

theorem exists_names (h : IsPlace d) :
    ∃ names, (∀ n ∈ names, IsName n) ∧ d = .ofNames names ∧
      ∀ more, (∀ n ∈ more, IsName n) → d.entry more = .ofNames (names ++ more) := by
  obtain ⟨names, hn, rfl⟩ := Path.exists_names h.isAbsolute h.isNormal
  exact ⟨names, hn, rfl, fun _ => Path.entry_ofNames hn⟩

theorem isNormal_entry (h : IsPlace d) {more : List String} (hm : ∀ n ∈ more, IsName n) :
    (d.entry more).IsNormal := by
  obtain ⟨names, hn, _, he⟩ := h.exists_names
  rw [he more hm]
  exact Path.isNormal_ofNames <| List.forall_mem_append.mpr ⟨hn, hm⟩

theorem entry_inj (h : IsPlace d) {more more' : List String} (hm : ∀ n ∈ more, IsName n)
    (hm' : ∀ n ∈ more', IsName n) : d.entry more = d.entry more' ↔ more = more' := by
  obtain ⟨names, hn, _, he⟩ := h.exists_names
  rw [he more hm, he more' hm', Path.ofNames_inj (List.forall_mem_append.mpr ⟨hn, hm⟩)
    (List.forall_mem_append.mpr ⟨hn, hm'⟩), List.append_right_inj]

theorem directory_file (h : IsPlace d) (i : Nat) : (file d i).directory = d := by
  obtain ⟨names, hn, hd, he⟩ := h.exists_names
  rw [file, he [fileName i] (by simpa using isName_fileName i),
    Path.directory_ofNames hn (isName_fileName i), hd]

theorem isAbsolute_file (h : IsPlace d) (i : Nat) : (file d i).isAbsolute := by
  obtain ⟨names, hn, hd, he⟩ := h.exists_names
  rw [file, he [fileName i] (by simpa using isName_fileName i)]
  exact Path.isAbsolute_ofNames _

end IsPlace

theorem forall_fileName (i : Nat) : ∀ n ∈ [fileName i], IsName n := by
  simpa using isName_fileName i

theorem forall_libraryName (n : Nat) : ∀ m ∈ [libraryDir, libraryName n], IsName m := by
  simpa using ⟨isName_libraryDir, isName_libraryName n⟩

section
variable (h : IsPlace d)
include h

theorem isNormal_file (i : Nat) : (file d i).IsNormal :=
  h.isNormal_entry (forall_fileName i)

theorem isNormal_library (n : Nat) : (library d n).IsNormal :=
  h.isNormal_entry (forall_libraryName n)

theorem file_inj {i j : Nat} : file d i = file d j ↔ i = j := by
  rw [file, file, h.entry_inj (forall_fileName i) (forall_fileName j), List.singleton_inj, fileName_inj]

theorem library_inj {m n : Nat} : library d m = library d n ↔ m = n := by
  rw [library, library, h.entry_inj (forall_libraryName m) (forall_libraryName n), List.cons_inj_right,
    List.singleton_inj, libraryName_inj]

theorem library_ne_file (n i : Nat) : library d n ≠ file d i := by
  rw [library, file, Ne, h.entry_inj (forall_libraryName n) (forall_fileName i)]
  simp

end

theorem mem_files_file {i : Nat} (hi : i < x.fileCount) : ([fileName i], (x.script i).source) ∈ x.files :=
  List.mem_append_left _ <| List.mem_map.mpr ⟨i, List.mem_range.mpr hi, rfl⟩

theorem mem_files_library {n : Nat} (hn : n < x.libraryFiles) :
    ([libraryDir, libraryName n], textOf (libraryLines n)) ∈ x.files :=
  List.mem_append_right _ <| List.mem_map.mpr ⟨n, List.mem_range.mpr hn, rfl⟩

theorem isName_of_mem_files {f : List String × String} (hf : f ∈ x.files) : ∀ n ∈ f.1, IsName n := by
  obtain hf | hf := List.mem_append.mp hf
  all_goals obtain ⟨n, _, rfl⟩ := List.mem_map.mp hf
  case inl => exact forall_fileName n
  case inr => exact forall_libraryName n

theorem pairwise_files (x : Fixture) : x.files.Pairwise fun f f' => f.1 ≠ f'.1 := by
  refine List.pairwise_append.mpr ⟨?_, ?_, ?_⟩
  case refine_1 =>
    refine List.pairwise_map.mpr <| List.nodup_range.imp fun hn => ?_
    simpa [fileName_inj] using hn
  case refine_2 =>
    refine List.pairwise_map.mpr <| List.nodup_range.imp fun hn => ?_
    simpa [libraryName_inj] using hn
  case refine_3 => simp +contextual

theorem heldBy_inMemory (x : Fixture) (h : IsPlace d) : x.HeldBy (x.inMemory d).sources d := by
  have hdistinct : (x.inMemory d).texts.Distinct := by
    refine List.pairwise_map.mpr <| x.pairwise_files.imp_of_mem fun hf hf' hn => ?_
    have hn := mt (h.entry_inj (isName_of_mem_files hf) (isName_of_mem_files hf')).mp hn
    rwa [(h.isNormal_entry (isName_of_mem_files hf)).beq_iff_eq (h.isNormal_entry (isName_of_mem_files hf'))]
  have hfind (f : List String × String) (hf : f ∈ x.files) :
      (x.inMemory d).texts.find? (d.entry f.1).identity = some f.2 := by
    rw [(h.isNormal_entry (isName_of_mem_files hf)).identity_eq]
    exact hdistinct.find?_of_mem (e := (d.entry f.1, f.2)) <| List.mem_map.mpr ⟨f, hf, rfl⟩
  have hl (p : Path) : (x.inMemory d).isLocked p = false := rfl
  constructor
  all_goals
    intro f hf
    simp [MemoryFiles.sources, hl, PathTable.contains, hfind f hf]

theorem resolve_file (h : IsPlace d) (hs : x.HeldBy sources d) {i : Nat} (hi : i + 1 < x.fileCount)
    (line : Nat) :
    (resolver workingDir d maxDepth).resolve sources (file d i) ⟨.relative, fileName (i + 1), line⟩ =
      .found (file d (i + 1)) := by
  have hf : sources.isFile (file d (i + 1)) := hs.isFile _ (mem_files_file hi)
  have hj : (d.join (.ofText (fileName (i + 1)))).normalize? = some (file d (i + 1)) :=
    isNormal_file h (i + 1)
  rw [Resolver.resolve_eq_found_iff]
  simp [Resolver.probes, Resolver.bases, ofWritten_fileName, (isName_fileName _).not_isAbsolute,
    h.directory_file, hj, hf, resolver]

theorem resolve_library (h : IsPlace d) (hs : x.HeldBy sources d) {n : Nat} (hn : n < x.libraryFiles)
    (i line : Nat) :
    (resolver workingDir d maxDepth).resolve sources (file d i) ⟨.library, libraryName n, line⟩ =
      .found (library d n) := by
  have hf : sources.isFile (library d n) := hs.isFile _ (mem_files_library hn)
  have hj : ((d.join (.ofText libraryDir)).join (.ofText (libraryName n))).normalize? =
      some (library d n) := isNormal_library h n
  rw [Resolver.resolve_eq_found_iff]
  simp [Resolver.probes, Resolver.bases, ofWritten_libraryName, (isName_libraryName _).not_isAbsolute,
    hj, hf, resolver]

theorem toList_libraryLines (n : Nat) :
    (libraryLines n).map String.toList = [once.text, ['#', 'c', 's'],
      '$' :: (Variable.shared.word ++ (".commented_".toList ++ (digits n ++ " = 0".toList))), ['#', 'c', 'e'],
      '$' :: (Variable.shared.word ++ (".udf_".toList ++ (digits n ++ " = 1".toList)))] := by
  simp [libraryLines, toList_sharedMap, digits, Statement.text]

theorem madeOf_library (n : Nat) :
    MadeOf (textOf (libraryLines n)).toList ((libraryLines n).map String.toList) where
  whole    := by
    have hdigits : (digits n).all (isPrinted true) := all_isPrinted true fun _ => isPlain_of_mem_digits
    have hword : Variable.shared.word.all (isPrinted true) := rfl
    have hshared {key value : List Char} (hk : key.all (isPrinted true)) (hv : value.all (isPrinted true)) :
        ('$' :: (Variable.shared.word ++ (key ++ (digits n ++ value)))).all (isPrinted true) := by
      simp only [List.all_cons, List.all_append, hword, hk, hdigits, hv]
      rfl
    rw [toList_libraryLines]
    simp only [List.forall_mem_cons, List.not_mem_nil, false_implies, implies_true, and_true]
    exact ⟨whole_of_all_isPrinted once.all_text, by decide, whole_of_all_isPrinted (hshared rfl rfl),
      by decide, whole_of_all_isPrinted (hshared rfl rfl)⟩
  unmarked := by simp [toList_textOf, libraryLines]
  text_eq  := .inl (toList_textOf _)

theorem includes_library (n : Nat) : Include.ofText (textOf (libraryLines n)) = [] := by
  have hmade := madeOf_library n
  rw [Include.ofText, codeLines, withoutMark_of_head? hmade.unmarked, hmade.lines_eq,
    List.filterMap_eq_nil_iff]
  rintro ⟨number, text⟩ hl
  have hm : text ∈ (libraryLines n).map String.toList :=
    List.mem_of_getElem? <| getElem?_of_mem_codeLinesFrom hl
  rw [toList_libraryLines] at hm
  simp only [List.mem_cons, List.not_mem_nil, or_false] at hm
  obtain rfl | rfl | rfl | rfl | rfl := hm
  all_goals rfl

theorem HeldBy.visit_file (hs : x.HeldBy sources d) {i : Nat} (hi : i < x.fileCount) (v : Visit)
    (r : Resolver) (depth : Nat) :
    v.visit r sources (file d i) depth =
      v.followAll r sources (file d i) depth (Include.ofText (x.script i).source) := by
  have hf : sources.isFile (file d i) := hs.isFile _ (mem_files_file hi)
  have ht : sources.read (file d i) = .ok (x.script i).source := hs.read _ (mem_files_file hi)
  rw [Visit.visit, if_pos hf, ht]
  rfl

-- A library file includes nothing.
theorem HeldBy.visit_library (hs : x.HeldBy sources d) {n : Nat} (hn : n < x.libraryFiles) (v : Visit)
    (r : Resolver) (depth : Nat) : v.visit r sources (library d n) depth = v := by
  have hf : sources.isFile (library d n) := hs.isFile _ (mem_files_library hn)
  have ht : sources.read (library d n) = .ok (textOf (libraryLines n)) := hs.read _ (mem_files_library hn)
  rw [Visit.visit, if_pos hf, ht]
  simp only [includes_library, List.foldl_nil]

-- A visit that has come to the files up to `k` and then to the library files with the given numbers.
structure Entered (d : Path) (k : Nat) (numbers : List Nat) (v : Visit) : Prop where
  visited      :
    v.visited = (numbers.map (library d)).reverse ++ ((List.range (k + 1)).map (file d)).reverse
  files        :
    v.record.files = (List.range k).map (fun i => file d (i + 1)) ++ numbers.map (library d)
  unresolved   : v.record.unresolved = []
  readFailures : v.record.readFailures = []

namespace Entered

variable {r : Resolver} {k depth : Nat} {numbers : List Nat} {v : Visit} {directive : Include}

theorem contains_iff (h : Entered d k numbers v) (hd : IsPlace d) {p : Path} (hp : p.IsNormal) :
    v.visited.contains p.identity ↔ (∃ n ∈ numbers, p = library d n) ∨ ∃ i ≤ k, p = file d i := by
  have hl (n : Nat) : p == library d n ↔ p = library d n := hp.beq_iff_eq (isNormal_library hd n)
  have hf (i : Nat) : p == file d i ↔ p = file d i := hp.beq_iff_eq (isNormal_file hd i)
  rw [hp.identity_eq, List.contains_iff_exists_mem_beq, h.visited]
  simp only [List.mem_append, List.mem_reverse, List.mem_map, List.mem_range, Nat.lt_succ_iff, or_and_right,
    exists_or, ↓existsAndEq, and_true, hl, hf]

theorem contains_library (h : Entered d k numbers v) (hd : IsPlace d) (n : Nat) :
    v.visited.contains (library d n).identity ↔ n ∈ numbers := by
  rw [h.contains_iff hd (isNormal_library hd n)]
  simp [library_inj hd, library_ne_file hd]

theorem contains_file (h : Entered d k numbers v) (hd : IsPlace d) (i : Nat) :
    v.visited.contains (file d i).identity ↔ i ≤ k := by
  rw [h.contains_iff hd (isNormal_file hd i)]
  simp [file_inj hd, (library_ne_file hd _ _).symm]

-- At the depth that is allowed nothing more is entered.
theorem follow_bounded (h : Entered d k numbers v) (hb : r.maxDepth ≤ depth) (path target : Path) :
    Entered d k numbers (v.follow r sources path depth directive (.found target)) := by
  rw [Visit.follow, dif_pos (show depth ≥ r.maxDepth from hb)]
  split
  all_goals exact ⟨h.visited, h.files, h.unresolved, h.readFailures⟩

-- A library file is entered unless it was before.
theorem follow_library (h : Entered d k numbers v) (hd : IsPlace d) (hs : x.HeldBy sources d) {n : Nat}
    (hn : n < x.libraryFiles) (hb : depth < r.maxDepth) (path : Path) :
    Entered d k (if n ∈ numbers then numbers else numbers ++ [n])
      (v.follow r sources path depth directive (.found (library d n))) := by
  rw [Visit.follow, dif_neg (Nat.not_le.mpr hb), hs.visit_library hn]
  by_cases hm : n ∈ numbers
  case pos =>
    rw [if_pos hm, if_pos ((h.contains_library hd n).mpr hm)]
    exact ⟨h.visited, h.files, h.unresolved, h.readFailures⟩
  case neg =>
    rw [if_neg hm, if_neg (mt (h.contains_library hd n).mp hm)]
    refine ⟨?_, ?_, h.unresolved, h.readFailures⟩
    case refine_1 => simp [h.visited, (isNormal_library hd n).identity_eq]
    case refine_2 => simp [h.files]

-- The next file of the chain is visited at once.
theorem follow_file (h : Entered d k [] v) (hd : IsPlace d) (hb : depth < r.maxDepth) (path : Path)
    {last : Nat} (hv : ∀ v, Entered d (k + 1) [] v →
      Entered d last numbers (v.visit r sources (file d (k + 1)) (depth + 1))) :
    Entered d last numbers (v.follow r sources path depth directive (.found (file d (k + 1)))) := by
  rw [Visit.follow, if_neg (mt (h.contains_file hd (k + 1)).mp (by omega)), dif_neg (Nat.not_le.mpr hb)]
  refine hv _ ⟨?visited, ?files, h.unresolved, h.readFailures⟩
  case visited => simp [h.visited, (isNormal_file hd (k + 1)).identity_eq, List.range_succ]
  case files => simp [h.files, List.range_succ]

end Entered

theorem librariesFrom_of_lt {k : Nat} (h : x.chainLength maxDepth < k) : x.librariesFrom maxDepth k = [] := by
  have hz : x.followedFiles maxDepth - k = 0 := by
    unfold followedFiles
    split <;> omega
  simp [librariesFrom, hz]

-- Back at the file `k` its library file comes last, unless it was entered before.
theorem librariesFrom_eq {k : Nat} (h : k ≤ x.chainLength maxDepth) :
    x.librariesFrom maxDepth k =
      if 0 < x.libraryFiles ∧ k < maxDepth then
        if k % x.libraryFiles ∈ x.librariesFrom maxDepth (k + 1) then x.librariesFrom maxDepth (k + 1)
        else x.librariesFrom maxDepth (k + 1) ++ [k % x.libraryFiles]
      else x.librariesFrom maxDepth (k + 1) := by
  have ht : x.chainLength maxDepth ≤ maxDepth := by
    unfold chainLength
    omega
  by_cases hn : 0 < x.libraryFiles
  case neg => simp [librariesFrom, hn]
  case pos =>
    by_cases hk : k < maxDepth
    case neg =>
      have hz : x.followedFiles maxDepth - k = 0 := by
        unfold followedFiles
        split <;> omega
      have hz' : x.followedFiles maxDepth - (k + 1) = 0 := by omega
      simp [librariesFrom, hk, hz, hz']
    case pos =>
      have hs : x.followedFiles maxDepth - k = x.followedFiles maxDepth - (k + 1) + 1 := by
        unfold followedFiles
        split <;> omega
      simp only [librariesFrom, hn, hk, hs, List.range'_succ, List.reverse_cons, List.map_append,
        List.map_cons, List.map_nil, eraseDups_append_singleton, List.mem_eraseDups, ↓reduceIte, and_self]

theorem exists_directive {directives : List Include} {kind : IncludeKind} {path : String}
    (h : directives.map (fun i => (i.kind, i.path)) = [(kind, path)]) :
    ∃ line, directives = [⟨kind, path, line⟩] := by
  have ⟨directive, he, hp⟩ := List.map_eq_singleton_iff.mp h
  have ⟨hk, hp⟩ := Prod.mk.inj hp
  exact ⟨directive.line, by rw [he, ← hk, ← hp]⟩

-- Following the chain's directive of the file `k` leads to the end of the chain, if the walk from the
-- next file does.
theorem Entered.followAll_chain (hd : IsPlace d) (hs : x.HeldBy sources d) {k : Nat} {v : Visit}
    {directives : List Include} (hk : k ≤ x.chainLength maxDepth) (h : Entered d k [] v)
    (hi : directives.map (fun i => (i.kind, i.path)) =
      if k < x.chainDepth ∧ k + 1 < x.fileCount then [(.relative, fileName (k + 1))] else [])
    (hw : k < x.chainLength maxDepth → ∀ v, Entered d (k + 1) [] v →
      Entered d (x.chainLength maxDepth) (x.librariesFrom maxDepth (k + 1))
        (v.visit (resolver workingDir d maxDepth) sources (file d (k + 1)) (k + 1))) :
    Entered d (x.chainLength maxDepth) (x.librariesFrom maxDepth (k + 1))
      (v.followAll (resolver workingDir d maxDepth) sources (file d k) k directives) := by
  have ht : x.chainLength maxDepth = min x.chainDepth (min (x.fileCount - 1) maxDepth) := rfl
  split at hi
  case isTrue hc =>
    obtain ⟨line, rfl⟩ := exists_directive hi
    rw [Visit.followAll, List.foldl_cons, List.foldl_nil, resolve_file hd hs hc.right]
    by_cases hb : k < maxDepth
    case pos => exact h.follow_file hd hb (file d k) (hw (by omega))
    case neg =>
      have hl : k = x.chainLength maxDepth := by omega
      rw [librariesFrom_of_lt (by omega), ← hl]
      exact h.follow_bounded (Nat.not_lt.mp hb) _ _
  case isFalse hc =>
    have hl : k = x.chainLength maxDepth := by omega
    rw [List.map_eq_nil_iff.mp hi, librariesFrom_of_lt (by omega), ← hl]
    exact h

theorem Entered.followAll_library (hd : IsPlace d) (hs : x.HeldBy sources d) {k last : Nat} {v : Visit}
    {directives : List Include} {numbers : List Nat} (h : Entered d last numbers v)
    (hi : directives.map (fun i => (i.kind, i.path)) =
      if 0 < x.libraryFiles then [(.library, libraryName (k % x.libraryFiles))] else []) :
    Entered d last
      (if 0 < x.libraryFiles ∧ k < maxDepth then
        if k % x.libraryFiles ∈ numbers then numbers else numbers ++ [k % x.libraryFiles]
      else numbers)
      (v.followAll (resolver workingDir d maxDepth) sources (file d k) k directives) := by
  by_cases hn : 0 < x.libraryFiles
  case pos =>
    rw [if_pos hn] at hi
    obtain ⟨line, rfl⟩ := exists_directive hi
    have hm := Nat.mod_lt k hn
    rw [Visit.followAll, List.foldl_cons, List.foldl_nil, resolve_library hd hs hm]
    by_cases hb : k < maxDepth
    case pos =>
      rw [if_pos ⟨hn, hb⟩]
      exact h.follow_library hd hs hm hb (file d k)
    case neg =>
      rw [if_neg fun h => hb h.right]
      exact h.follow_bounded (Nat.not_lt.mp hb) _ _
  case neg =>
    rw [if_neg hn] at hi
    rw [List.map_eq_nil_iff.mp hi, if_neg fun h => hn h.left]
    exact h

-- The walk from the file `k` on. The induction is on how much of the chain lies ahead.
theorem Entered.followAll (hd : IsPlace d) (hs : x.HeldBy sources d) {k : Nat} {v : Visit}
    (hk : k ≤ x.chainLength maxDepth) (hc : k < x.fileCount) (h : Entered d k [] v) :
    Entered d (x.chainLength maxDepth) (x.librariesFrom maxDepth k)
      (v.followAll (resolver workingDir d maxDepth) sources (file d k) k
        (Include.ofText (x.script k).source)) := by
  induction hr : x.chainLength maxDepth - k generalizing k v
  all_goals
    have ⟨next, libraries, he, hnext, hlibraries⟩ := List.map_eq_append_iff.mp (x.includes_script k)
    rw [he, Visit.followAll, List.foldl_append, librariesFrom_eq hk]
    refine followAll_library hd hs (followAll_chain hd hs hk h hnext ?_) hlibraries
  case zero =>
    intro hl
    omega
  case succ ahead hi =>
    intro hl v hv
    have hc : k + 1 < x.fileCount := by
      unfold chainLength at hl
      omega
    rw [hs.visit_file hc]
    exact hi (by omega) hc hv (by omega)

-- Followed from the first file of a made-up workspace, the includes lead down the chain as far as it and
-- the depth allow, and then to the library files of the files on the way back, each where it is met first.
-- At the depth that is allowed the last file of the chain has nothing followed.
theorem traverse_chain_then_libraries (x : Fixture) (hc : 0 < x.fileCount) (ha : d.isAbsolute)
    (hd : d.IsNormal) (hs : x.HeldBy sources d) (workingDir : Path) (maxDepth : Nat) :
    let t := min x.chainDepth (min (x.fileCount - 1) maxDepth)
    let followed := if t < maxDepth then t + 1 else t
    let traversal := (resolver workingDir d maxDepth).traverse sources (file d 0)
    traversal.files = (List.range t).map (fun k => file d (k + 1)) ++
      (if 0 < x.libraryFiles then
        ((List.range followed).reverse.map (· % x.libraryFiles)).eraseDups.map (library d)
      else []) ∧
    traversal.unresolved = [] ∧ traversal.readFailures = [] := by
  intro t followed traversal
  have hp : IsPlace d := ⟨ha, hd⟩
  have hf : (resolver workingDir d maxDepth).absolutize (file d 0) = file d 0 :=
    (Path.absolutize_of_isAbsolute (hp.isAbsolute_file 0)).trans (isNormal_file hp 0).identity_eq
  have hstart : Entered d 0 [] (Visit.start (file d 0)) :=
    ⟨by simp [Visit.start, (isNormal_file hp 0).identity_eq], rfl, rfl, rfl⟩
  have hw : Entered d t (x.librariesFrom maxDepth 0) <|
      (Visit.start (file d 0)).followAll (resolver workingDir d maxDepth) sources (file d 0) 0
        (Include.ofText (x.script 0).source) :=
    hstart.followAll hp hs (Nat.zero_le _) hc
  have hheld : sources.isFile (file d 0) := hs.isFile _ (mem_files_file hc)
  have hread : sources.read (file d 0) = .ok (x.script 0).source := hs.read _ (mem_files_file hc)
  have ht : traversal = _ := Resolver.record_traverse (hf.symm ▸ hheld) (hf.symm ▸ hread)
  rw [ht, hf]
  refine ⟨?_, hw.unresolved, hw.readFailures⟩
  rw [hw.files, librariesFrom, List.range'_eq_map_range]
  simp [followedFiles, chainLength, t, followed, apply_ite (List.map _)]

-- The depth ends the chain before its last file, and the two library files are included by turns.
theorem traverse_chain_then_libraries_truncated :
    let x : Fixture := ⟨5, 1, 1, 9, 2, 0⟩
    let d := Path.ofText "/w"
    let traversal := (resolver (.ofText "/") d 3).traverse (x.inMemory d).sources (file d 0)
    0 < x.fileCount ∧ d.isAbsolute ∧ d.IsNormal ∧
    traversal.files.map (·.text) =
      ["/w/file_1.au3", "/w/file_2.au3", "/w/file_3.au3", "/w/udf/Udf_0.au3", "/w/udf/Udf_1.au3"] ∧
    traversal.unresolved = [] ∧ traversal.readFailures = [] := by
  intro x d traversal
  have ha : d.isAbsolute := by decide
  have hd : d.IsNormal := rfl
  have ⟨hf, hrest⟩ :=
    x.traverse_chain_then_libraries (by decide) ha hd (x.heldBy_inMemory ⟨ha, hd⟩) (.ofText "/") 3
  refine ⟨by decide, ha, hd, ?_, hrest⟩
  rw [show traversal.files = _ from hf]
  decide +kernel

end Fixture

end ScriptMaps
