import Mathlib.Data.List.TakeDrop
import ScriptMaps.Proofs.Disk.Tree
import ScriptMaps.Proofs.Path.Order
import ScriptMaps.Proofs.Text.Runs

namespace ScriptMaps
open Text

-- The extension of a file's name is what follows its last point, if something comes before the point.
def HasExtension (name extension : String) : Prop :=
  ∃ stem : String, stem ≠ "" ∧ '.' ∉ extension.toList ∧ name = stem ++ "." ++ extension

theorem isScriptName_iff {name : String} :
    isScriptName name ↔ ∃ extension, HasExtension name extension ∧ sameName extension "au3" := by
  rw [isScriptName, List.span_eq_takeWhile_dropWhile]
  dsimp only
  constructor
  case mp =>
    intro h
    have hrun := Run.takeWhile_dropWhile (· != '.') name.toList.reverse
    have hname : _ = name.toList.reverse := List.takeWhile_append_dropWhile (p := (· != '.'))
    split at h
    case h_2 => cases h
    case h_1 point last rest hd =>
      rw [hd] at hrun hname
      obtain rfl : point = '.' := by simpa using hrun.ends point rfl
      refine ⟨.ofList _, ⟨.ofList (last :: rest).reverse, by simp, ?_, ?_⟩, by simpa [sameName] using h⟩
      case refine_1 => simpa using fun hm => by simpa using hrun.all '.' hm
      case refine_2 =>
        refine String.toList_inj.mp <| List.reverse_inj.mp <| hname.symm.trans ?_
        simp
  case mpr =>
    rintro ⟨extension, ⟨stem, hs, he, rfl⟩, hsame⟩
    have hrun : Run (· != '.') extension.toList.reverse ('.' :: stem.toList.reverse) := by
      refine .of_cons ?_ (by simp)
      intro c hc
      have hne : c ≠ '.' := ne_of_mem_of_not_mem (List.mem_reverse.mp hc) he
      simpa using hne
    have hname : (stem ++ "." ++ extension).toList.reverse =
        extension.toList.reverse ++ '.' :: stem.toList.reverse := by simp
    obtain ⟨last, rest, hstem⟩ := List.exists_cons_of_ne_nil (l := stem.toList.reverse) (by simpa using hs)
    rw [hname, hrun.takeWhile, hrun.dropWhile, hstem, List.reverse_reverse]
    exact hsame

-- Folders of version control, of editors and of build tools, and backups.
theorem isSkippedDirectory_iff {name : String} :
    isSkippedDirectory name ↔
      name ∈ [".git", ".svn", ".hg", "node_modules", ".vscode", ".idea", "target"] ∨
        ∃ stem : String, name = stem ++ ".backup" := by
  rw [isSkippedDirectory, Bool.or_eq_true, List.contains_iff_mem, List.isSuffixOf_iff_suffix]
  refine or_congr_right ⟨?suffix, ?append⟩
  case suffix =>
    intro ⟨stem, hs⟩
    refine ⟨.ofList stem, String.toList_injective ?_⟩
    rw [String.toList_append, String.toList_ofList, hs]
  case append =>
    rintro ⟨stem, rfl⟩
    exact ⟨stem.toList, String.toList_append.symm⟩

namespace Node

theorem lookup_eq_some_iff_mem {entries : List (String × Node)} (hd : entries.Pairwise (·.1 ≠ ·.1))
    {name : String} {node : Node} : entries.lookup name = some node ↔ (name, node) ∈ entries := by
  induction hd
  case nil => simp
  case cons e entries hne _ hi =>
    obtain ⟨first, node'⟩ := e
    rw [List.lookup_cons, List.mem_cons, Prod.mk.injEq]
    by_cases hn : name = first
    case neg => simpa [beq_false_of_ne hn, hn] using hi
    case pos =>
      subst hn
      have hm : (name, node) ∉ entries := fun hm => hne _ hm rfl
      simp [hm, eq_comm]

-- The directories `dirs` lead one after the other to a regular file of the given name, and none of them is
-- passed over.
structure HasScript (node : Node) (dirs : List String) (name : String) (bytes : List UInt8) : Prop where
  get?_eq      : node.get? (dirs ++ [name]) = some (.file false (.ok bytes))
  isScriptName : isScriptName name
  kept         : ∀ d ∈ dirs, ¬isSkippedDirectory d

variable {node : Node} {entries : List (String × Node)} {p : Path} {name : String} {f : Path × String}
  {dirs : List String} {bytes : List UInt8}

theorem hasScript_nil_iff (hd : entries.Pairwise (·.1 ≠ ·.1)) :
    (directory entries).HasScript [] name bytes ↔
      (name, .file false (.ok bytes)) ∈ entries ∧ isScriptName name := by
  have hg : (directory entries).get? [name] = entries.lookup name := by
    cases h : entries.lookup name <;> simp [get?, Node.entries, h]
  rw [← lookup_eq_some_iff_mem hd, ← hg]
  exact ⟨fun h => ⟨h.get?_eq, h.isScriptName⟩, fun h => ⟨h.left, h.right, by simp⟩⟩

theorem hasScript_cons_iff (hd : entries.Pairwise (·.1 ≠ ·.1)) {dir : String} :
    (directory entries).HasScript (dir :: dirs) name bytes ↔
      ∃ node, (dir, node) ∈ entries ∧ ¬isSkippedDirectory dir ∧ node.HasScript dirs name bytes := by
  have hg : (directory entries).get? (dir :: dirs ++ [name]) =
      (entries.lookup dir).bind (get? · (dirs ++ [name])) := rfl
  constructor
  case mp =>
    rintro ⟨he, hs, hk⟩
    obtain ⟨hdir, hk⟩ := List.forall_mem_cons.mp hk
    obtain ⟨node, hl, he⟩ := Option.bind_eq_some_iff.mp (hg.symm.trans he)
    exact ⟨node, (lookup_eq_some_iff_mem hd).mp hl, hdir, he, hs, hk⟩
  case mpr =>
    rintro ⟨node, hm, hdir, he, hs, hk⟩
    refine ⟨hg.trans ?_, hs, List.forall_mem_cons.mpr ⟨hdir, hk⟩⟩
    rw [(lookup_eq_some_iff_mem hd).mpr hm, Option.bind_some, he]

theorem not_hasScript_file {linked : Bool} {content : Except SystemFault (List UInt8)} :
    ¬(file linked content).HasScript dirs name bytes := by
  intro h
  have he := h.get?_eq
  cases dirs <;> simp [get?, Node.entries] at he

theorem mem_scriptsIn_iff_exists :
    f ∈ scriptsIn p entries ↔ ∃ e ∈ entries, f ∈ scriptsAt (p.join (.ofText e.1)) e.1 e.2 := by
  induction entries
  case nil => simp [scriptsIn]
  case cons e entries hi => rw [scriptsIn, List.mem_append, hi]; simp

theorem mem_scriptsAt_file_iff {linked : Bool} {content : Except SystemFault (List UInt8)} :
    f ∈ scriptsAt p name (.file linked content) ↔
      ∃ bytes, file linked content = .file false (.ok bytes) ∧ isScriptName name ∧ ¬p.isTooLong ∧
        f = (p, Utf8.decodeLossy bytes) := by
  rw [scriptsAt.eq_def]
  cases content <;> cases linked <;> simp [and_assoc]

theorem mem_scriptsAt_directory_iff :
    f ∈ scriptsAt p name (.directory entries) ↔ ¬isSkippedDirectory name ∧ f ∈ scriptsIn p entries := by
  rw [scriptsAt]
  split <;> simp_all

-- Directories are passed over while the tree is gone through, with all that is below them.
theorem IsTree.mem_scriptsIn_iff (h : node.IsTree) :
    f ∈ scriptsIn p node.entries ↔
      ∃ dirs name bytes, node.HasScript dirs name bytes ∧ ¬(p.entry (dirs ++ [name])).isTooLong ∧
        f = (p.entry (dirs ++ [name]), Utf8.decodeLossy bytes) := by
  induction h generalizing p
  case file => simp [not_hasScript_file, Node.entries, scriptsIn]
  case directory entries hn hd ht hi =>
    rw [Node.entries, mem_scriptsIn_iff_exists]
    constructor
    case mp =>
      rintro ⟨⟨name, node⟩, he, hf⟩
      cases node
      case file =>
        obtain ⟨bytes, hc, hs, hl, rfl⟩ := mem_scriptsAt_file_iff.mp hf
        exact ⟨[], name, bytes, (hasScript_nil_iff hd).mpr ⟨hc ▸ he, hs⟩, hl, rfl⟩
      case directory =>
        obtain ⟨hk, hf⟩ := mem_scriptsAt_directory_iff.mp hf
        obtain ⟨dirs, last, bytes, hs, hl, rfl⟩ := (hi _ he).mp hf
        exact ⟨name :: dirs, last, bytes, (hasScript_cons_iff hd).mpr ⟨_, he, hk, hs⟩, hl, rfl⟩
    case mpr =>
      rintro ⟨dirs, name, bytes, hs, hl, rfl⟩
      cases dirs
      case nil =>
        obtain ⟨he, hs⟩ := (hasScript_nil_iff hd).mp hs
        exact ⟨_, he, mem_scriptsAt_file_iff.mpr ⟨bytes, rfl, hs, hl, rfl⟩⟩
      case cons dir dirs =>
        obtain ⟨node, he, hk, hs⟩ := (hasScript_cons_iff hd).mp hs
        have hf := (hi _ he).mpr ⟨dirs, name, bytes, hs, hl, rfl⟩
        cases node
        case file      => exact absurd hs not_hasScript_file
        case directory => exact ⟨_, he, mem_scriptsAt_directory_iff.mpr ⟨hk, hf⟩⟩

-- Where a path leads, and the directories that were gone through on the way.
def reach (tree : Node) (p : Path) : Except SystemFault (Node × List Node) :=
  (p.text.toList.splitOn '/').foldlM (fun place segment => go segment place) (tree, [])

theorem locate_eq_map_reach (tree : Node) (p : Path) : tree.locate p = (tree.reach p).map (·.1) :=
  rfl

theorem exists_reach_of_locate {tree : Node} (h : tree.locate p = .ok node) :
    ∃ above, tree.reach p = .ok (node, above) := by
  rw [locate_eq_map_reach] at h
  cases hr : tree.reach p <;> simp only [hr, Except.map] at h <;> cases h
  exact ⟨_, rfl⟩

-- A separator at the end of a path makes no difference to what is below it.
theorem go_nil_bind (segment : List Char) (place : Node × List Node) :
    (go [] place >>= go segment) = go segment place := by
  obtain ⟨_ | entries, above⟩ := place <;> rfl

theorem reach_join {tree : Node} (hp : p.text.toList ≠ []) (hn : IsName name) :
    tree.reach (p.join (.ofText name)) = tree.reach p >>= go name.toList := by
  obtain ⟨he, _⟩ | ⟨before, hb, hj⟩ := Path.toList_join (p := p) hn.not_isAbsolute
  case inl => exact absurd he hp
  case inr =>
    rw [reach, hj, Path.text_ofText, List.splitOn_append_cons_self, hn.splitOn_eq, List.foldlM_append, reach]
    obtain ⟨hb, _⟩ | hb := hb
    case inl => simp [hb]
    case inr =>
      rw [hb, List.splitOn_append_cons_self, List.foldlM_append, bind_assoc]
      simp [go_nil_bind]

theorem go_name {above : List Node} (hn : IsName name) (hs : name.utf8ByteSize ≤ maxNameSize)
    (hl : entries.lookup name = some node) :
    go name.toList (directory entries, above) = .ok (node, directory entries :: above) := by
  have hup : name.toList ≠ ['.', '.'] := by
    intro hu
    have hsegment := hn.ofSegment?_text
    simp [Component.text, hu, Component.ofSegment?] at hsegment
  simp only [go]
  rw [if_neg hn.not_isIdle, if_neg hup, String.ofList_toList, if_neg (Nat.not_lt.mpr hs), hl]

-- An entry of a directory is where its names lead to from there.
theorem exists_reach_entry {tree top : Node} {names : List String} {above : List Node}
    (hp : p.text.toList ≠ []) (hr : tree.reach p = .ok (top, above)) (hn : ∀ n ∈ names, IsName n)
    (hs : ∀ n ∈ names, n.utf8ByteSize ≤ maxNameSize) (hg : top.get? names = some node) :
    ∃ above, tree.reach (p.entry names) = .ok (node, above) := by
  induction names generalizing p top above
  case nil =>
    cases hg
    exact ⟨above, hr⟩
  case cons name names hi =>
    have ⟨hname, hn⟩ := List.forall_mem_cons.mp hn
    have ⟨hsize, hs⟩ := List.forall_mem_cons.mp hs
    obtain ⟨next, hl, hnode⟩ := Option.bind_eq_some_iff.mp hg
    cases top
    case file => cases hl
    case directory entries =>
      have hnext : tree.reach (p.join (.ofText name)) = .ok (next, directory entries :: above) := by
        rw [reach_join hp hname, hr]
        exact go_name hname hsize hl
      exact hi (Path.text_join_ne_nil p hname.ne_nil) hnext hn hs hnode

-- A tree whose names a file system has: none of them holds a NUL character or is too long.
inductive NamesFit : Node → Prop
  | file (linked : Bool) (content : Except SystemFault (List UInt8)) : NamesFit (.file linked content)
  | directory {entries : List (String × Node)}
    (hn : ∀ e ∈ entries, '\x00' ∉ e.1.toList ∧ e.1.utf8ByteSize ≤ maxNameSize)
    (ht : ∀ e ∈ entries, NamesFit e.2) : NamesFit (.directory entries)

-- What holds of the names of all directories holds of the names that lead somewhere.
theorem forall_names {Q : Node → Prop} {P : String → Prop} {names : List String} {node' : Node}
    (hQ : ∀ {entries}, Q (.directory entries) → ∀ e ∈ entries, P e.1 ∧ Q e.2) (h : Q node)
    (hg : node.get? names = some node') : ∀ n ∈ names, P n := by
  induction names generalizing node
  case nil => exact List.forall_mem_nil _
  case cons name names hi =>
    obtain ⟨next, hl, hnode⟩ := Option.bind_eq_some_iff.mp hg
    cases node
    case file => cases hl
    case directory entries =>
      obtain ⟨_, _, he, _⟩ := List.lookup_eq_some_iff.mp hl
      obtain ⟨hname, hnext⟩ := hQ h (name, next) (by simp [Node.entries] at he; simp [he])
      exact List.forall_mem_cons.mpr ⟨hname, hi hnext hnode⟩

theorem IsTree.isName_of_get? {names : List String} {node' : Node} (h : node.IsTree)
    (hg : node.get? names = some node') : ∀ n ∈ names, IsName n := by
  refine forall_names ?_ h hg
  intro entries h e he
  cases h
  case directory hn _ ht => exact ⟨hn e he, ht e he⟩

theorem NamesFit.of_get? {names : List String} {node' : Node} (h : node.NamesFit)
    (hg : node.get? names = some node') :
    ∀ n ∈ names, '\x00' ∉ n.toList ∧ n.utf8ByteSize ≤ maxNameSize := by
  refine forall_names ?_ h hg
  intro entries h e he
  cases h
  case directory hn ht => exact ⟨hn e he, ht e he⟩

end Node

namespace FoundBelow

variable {p : Path} {found : List (List String × String)} {scripts : List (Path × String)}

theorem distinct_scripts (h : FoundBelow p found scripts) (hp : p.text.toList ≠ []) :
    PathTable.Distinct ⟨scripts⟩ := by
  rw [PathTable.Distinct, h.scripts_eq, List.pairwise_map]
  refine h.distinct.imp_of_mem fun hf hf' hne he => hne ?_
  rw [Path.beq_iff, Path.components_entry hp (h.isName _ hf), Path.components_entry hp (h.isName _ hf'),
    List.append_right_inj] at he
  exact (List.map_inj_right fun _ _ => Component.name.inj).mp he

end FoundBelow

namespace Environment

variable {env : Environment} {root p : Path} {top node : Node} {names : List String}

-- A path below a directory leads to what the tree has there, unless it is too long to be asked for.
theorem locate_entry (hr : env.locate root = .ok top) (ht : top.IsTree) (hf : top.NamesFit)
    (hg : top.get? names = some node) :
    env.locate (root.entry names) =
      if (root.entry names).isTooLong then .error .nameTooLong else .ok node := by
  obtain ⟨hne, hnul, _, hl⟩ := locate_eq_ok_iff.mp hr
  have hnames := ht.isName_of_get? hg
  have hfit := hf.of_get? hg
  have hne' := Path.text_entry_ne_nil hne hnames
  have hnul' : '\x00' ∉ (root.entry names).text.toList := by
    intro hc
    obtain hc | hc | ⟨n, hm, hc⟩ := Path.mem_text_entry hnames hc
    case inl     => exact hnul hc
    case inr.inl => exact absurd hc (by decide)
    case inr.inr => exact (hfit n hm).left hc
  have hlocate : env.disk.locate (env.workingDir.join (root.entry names)) = .ok node := by
    obtain ⟨_, hreach⟩ := Node.exists_reach_of_locate hl
    obtain ⟨_, hreach⟩ := Node.exists_reach_entry (Path.text_join_ne_nil _ hne) hreach hnames
      (fun n hm => (hfit n hm).right) hg
    rw [Path.join_entry _ hne hnames, Node.locate_eq_map_reach, hreach]
    rfl
  split
  case isTrue hlong  => simpa [locate, hnul', hlong] using hne'
  case isFalse hlong => exact locate_eq_ok_iff.mpr ⟨hne', hnul', hlong, hlocate⟩

theorem readScript_of_locate_file {linked : Bool} {content : Except SystemFault (List UInt8)}
    (h : env.locate p = .ok (.file linked content)) : env.readScript p = content.map Utf8.decodeLossy := by
  rw [readScript, bytes, h]
  rfl

-- The scripts below a directory are its regular files that have the extension of scripts and can be read,
-- apart from those in directories that are passed over, with the texts that are read there. They come in the
-- strict order of their paths. Links are no regular files, also where they lead to one, and the name of the
-- directory itself does not count.
theorem scripts_are_files_below {entries : List (String × Node)}
    (hr : env.locate root = .ok (.directory entries)) (ht : (Node.directory entries).IsTree)
    (hf : (Node.directory entries).NamesFit) :
    (env.scripts root).Pairwise (fun f f' => f.1.components < f'.1.components) ∧
    ∀ p text, (p, text) ∈ env.scripts root ↔
      ∃ dirs name content,
        (Node.directory entries).get? (dirs ++ [name]) = some (.file false content) ∧
        p = root.entry (dirs ++ [name]) ∧ env.readScript p = .ok text ∧
        (∃ extension, HasExtension name extension ∧ sameName extension "au3") ∧
        ∀ dir ∈ dirs, ¬isSkippedDirectory dir := by
  have hscripts : env.scripts root =
      (Node.scriptsIn root entries).mergeSort fun f f' => f.1.precedes f'.1 := by
    rw [scripts, hr]
    rfl
  rw [hscripts]
  constructor
  case left =>
    obtain ⟨found, hfound⟩ := ht.exists_foundBelow_entries root
    exact Path.pairwise_mergeSort_lt (hfound.distinct_scripts (locate_eq_ok_iff.mp hr).left)
  case right =>
    intro p text
    rw [List.mem_mergeSort]
    refine (ht.mem_scriptsIn_iff (p := root)).trans ?_
    constructor
    case mp =>
      rintro ⟨dirs, name, bytes, hs, hl, hp⟩
      cases hp
      have hlocate := locate_entry hr ht hf hs.get?_eq
      rw [if_neg hl] at hlocate
      exact ⟨dirs, name, _, hs.get?_eq, rfl, readScript_of_locate_file hlocate,
        isScriptName_iff.mp hs.isScriptName, hs.kept⟩
    case mpr =>
      rintro ⟨dirs, name, content, hg, rfl, hread, hs, hk⟩
      have hlocate := locate_entry hr ht hf hg
      split at hlocate
      case isTrue =>
        rw [readScript, bytes, hlocate] at hread
        cases hread
      case isFalse hl =>
        rw [readScript_of_locate_file hlocate] at hread
        cases content <;> cases hread
        exact ⟨dirs, name, _, ⟨hg, isScriptName_iff.mpr hs, hk⟩, hl, rfl⟩

-- The directory has a name that is passed over below it. Beside two scripts there are a hidden file, a link,
-- a file that cannot be read and a script in a directory that is passed over.
theorem scripts_are_files_below_target :
    let file (text : String) := Node.file false (.ok text.toUTF8.toList)
    let sub := [(".au3", file ""), ("c.d.AU3", file "$m.c = 1\n")]
    let old := [("e.au3", file "")]
    let entries :=
      [("b.au3", file "$m.b = 1\n"), ("a", .directory sub), ("x.backup", .directory old),
        ("l.au3", .file true (.ok [])), ("u.au3", .file false (.error .denied))]
    let env : Environment := ⟨.directory [("target", .directory entries)], .ofText "/"⟩
    let root := Path.ofText "target/"
    env.locate root = .ok (.directory entries) ∧
    (env.scripts root).Pairwise (fun f f' => f.1.components < f'.1.components) ∧
    (.ofText "target/a/c.d.AU3", "$m.c = 1\n") ∈ env.scripts root ∧
    (.ofText "target/b.au3", "$m.b = 1\n") ∈ env.scripts root ∧
    ∀ text, (.ofText "target/u.au3", text) ∉ env.scripts root ∧
      (.ofText "target/x.backup/e.au3", text) ∉ env.scripts root := by
  intro file sub old entries env root
  have hr : env.locate root = .ok (.directory entries) := by
    have hsegments : (env.workingDir.join root).text.toList.splitOn '/' = [[], "target".toList, []] := by
      decide +kernel
    refine locate_eq_ok_iff.mpr ⟨by decide, by decide, by decide, ?_⟩
    rw [Node.locate, hsegments]
    rfl
  have hfile (linked : Bool) (content : Except SystemFault (List UInt8)) :
      (Node.file linked content).IsTree ∧ (Node.file linked content).NamesFit := ⟨.file .., .file ..⟩
  have hdirectory (entries : List (String × Node))
      (hn : ∀ e ∈ entries, '/' ∉ e.1.toList ∧ Component.ofSegment? e.1.toList = some (.name e.1))
      (hf : ∀ e ∈ entries, '\x00' ∉ e.1.toList ∧ e.1.utf8ByteSize ≤ Node.maxNameSize)
      (hd : entries.Pairwise (·.1 ≠ ·.1)) (h : ∀ e ∈ entries, e.2.IsTree ∧ e.2.NamesFit) :
      (Node.directory entries).IsTree ∧ (Node.directory entries).NamesFit :=
    ⟨.directory (fun e he => ⟨(hn e he).left, (hn e he).right, by simp⟩) hd fun e he => (h e he).left,
      .directory hf fun e he => (h e he).right⟩
  have hsub := hdirectory sub (by decide +kernel) (by decide +kernel) (by decide +kernel)
    (by simp [sub, file, hfile])
  have hold := hdirectory old (by decide +kernel) (by decide +kernel) (by decide +kernel)
    (by simp [old, file, hfile])
  have hentries := hdirectory entries (by decide +kernel) (by decide +kernel) (by decide +kernel)
    (by simp [entries, file, hfile, hsub, hold])
  have ⟨hsorted, hmem⟩ := scripts_are_files_below hr hentries.left hentries.right
  refine ⟨hr, hsorted, (hmem _ _).mpr ?deep, (hmem _ _).mpr ?flat, fun text => ⟨?unreadable, ?below⟩⟩
  case deep =>
    exact ⟨["a"], "c.d.AU3", _, rfl, Path.ext (by decide +kernel), by decide +kernel,
      ⟨"AU3", ⟨"c.d", by decide, by decide, rfl⟩, by decide⟩, by decide⟩
  case flat =>
    exact ⟨[], "b.au3", _, rfl, Path.ext (by decide +kernel), by decide +kernel,
      ⟨"au3", ⟨"b", by decide, by decide, rfl⟩, by decide⟩, by decide⟩
  case unreadable =>
    intro hm
    obtain ⟨_, _, _, _, _, hread, _⟩ := (hmem _ _).mp hm
    have hdenied : env.readScript (.ofText "target/u.au3") = .error .denied := by decide +kernel
    simp [hdenied] at hread
  case below =>
    intro hm
    obtain ⟨dirs, name, _, hg, hp, _, _, hk⟩ := (hmem _ _).mp hm
    have hc : root.components ++ (["x.backup"] ++ ["e.au3"]).map .name =
        root.components ++ (dirs ++ [name]).map .name := by
      rw [← Path.components_entry (by decide) (hentries.left.isName_of_get? hg), ← hp]
      decide +kernel
    have hnames := (List.map_inj_right fun _ _ => Component.name.inj).mp (List.append_cancel_left hc)
    obtain ⟨rfl, _⟩ := List.append_inj' hnames rfl
    exact hk "x.backup" (.head _) (by decide)

end Environment

end ScriptMaps
