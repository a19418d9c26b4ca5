import ScriptMaps.Proofs.Disk.Node
import ScriptMaps.Proofs.Path.Names

namespace ScriptMaps

namespace Node

-- A tree whose directories have entries with proper names, no two with the same one.
inductive IsTree : Node → Prop
  | file (linked : Bool) (content : Except SystemFault (List UInt8)) : IsTree (.file linked content)
  | directory {entries : List (String × Node)} (hn : ∀ e ∈ entries, IsName e.1)
    (hd : entries.Pairwise (·.1 ≠ ·.1)) (ht : ∀ e ∈ entries, IsTree e.2) : IsTree (.directory entries)

variable {node node' : Node} {segment : List Char} {segments : List (List Char)}
  {place place' : Node × List Node}

theorem IsTree.entries (h : node.IsTree) : ∀ e ∈ node.entries, e.2.IsTree := by
  cases h
  case file             => exact List.forall_mem_nil _
  case directory _ _ ht => exact ht

theorem isTree_go (h : go segment place = .ok place') (ht : ∀ n ∈ place.1 :: place.2, n.IsTree) :
    ∀ n ∈ place'.1 :: place'.2, n.IsTree := by
  have ⟨hhere, habove⟩ := List.forall_mem_cons.mp ht
  rw [List.forall_mem_cons]
  obtain ⟨hm, hs⟩ | ⟨he, hs, _⟩ | ⟨hs, _, ⟨name, hm⟩, _⟩ := go_cases h
  case inl     => exact ⟨habove _ hm, fun n hn => habove n (hs hn)⟩
  case inr.inl => exact ⟨he ▸ hhere, hs ▸ habove⟩
  case inr.inr => exact ⟨hhere.entries _ hm, hs ▸ ht⟩

theorem isTree_goAll (h : segments.foldlM (fun place segment => go segment place) place = .ok place')
    (ht : ∀ n ∈ place.1 :: place.2, n.IsTree) : ∀ n ∈ place'.1 :: place'.2, n.IsTree := by
  induction segments generalizing place
  case nil =>
    cases h
    exact ht
  case cons segment segments hi =>
    rw [List.foldlM_cons] at h
    cases hg : go segment place <;> simp only [hg, bind, Except.bind] at h
    case error => cases h
    case ok    => exact hi h <| isTree_go hg ht

theorem isTree_locate {p : Path} (h : node.locate p = .ok node') (ht : node.IsTree) : node'.IsTree := by
  rw [locate] at h
  cases hg : (p.text.toList.splitOn '/').foldlM (fun place segment => go segment place) (node, []) <;>
    simp only [hg, Except.map] at h <;> cases h
  exact isTree_goAll hg (by simpa using ht) _ (.head _)

end Node

-- Scripts below the directory `p`, known by the names that lead to them from there.
structure FoundBelow (p : Path) (found : List (List String × String)) (scripts : List (Path × String)) :
    Prop where
  isName     : ∀ f ∈ found, ∀ n ∈ f.1, IsName n
  distinct   : found.Pairwise (·.1 ≠ ·.1)
  scripts_eq : scripts = found.map fun f => (p.entry f.1, f.2)

namespace FoundBelow

variable {p : Path} {found found' : List (List String × String)} {scripts scripts' : List (Path × String)}

theorem nil (p : Path) : FoundBelow p [] [] :=
  ⟨List.forall_mem_nil _, .nil, rfl⟩

theorem self (p : Path) (text : String) : FoundBelow p [([], text)] [(p, text)] :=
  ⟨by simp, List.pairwise_singleton .., rfl⟩

theorem enter {name : String} (h : FoundBelow (p.join (.ofText name)) found scripts) (hn : IsName name) :
    FoundBelow p (found.map fun f => (name :: f.1, f.2)) scripts where
  isName     := by
    intro f hf
    obtain ⟨g, hg, rfl⟩ := List.mem_map.mp hf
    exact List.forall_mem_cons.mpr ⟨hn, h.isName g hg⟩
  distinct   := List.pairwise_map.mpr <| h.distinct.imp fun hne he => hne (List.cons.inj he).right
  scripts_eq := h.scripts_eq.trans <| by rw [List.map_map]; rfl

theorem append (h : FoundBelow p found scripts) (h' : FoundBelow p found' scripts')
    (hne : ∀ f ∈ found, ∀ f' ∈ found', f.1 ≠ f'.1) :
    FoundBelow p (found ++ found') (scripts ++ scripts') where
  isName     := List.forall_mem_append.mpr ⟨h.isName, h'.isName⟩
  distinct   := List.pairwise_append.mpr ⟨h.distinct, h'.distinct, hne⟩
  scripts_eq := by rw [h.scripts_eq, h'.scripts_eq, List.map_append]

-- From an absolute path no two of the scripts are seen at the same place.
theorem pairwise_absolutize (h : FoundBelow p found scripts) {base : Path} (hb : base.isAbsolute) :
    scripts.Pairwise fun f f' => base.absolutize f.1 ≠ base.absolutize f'.1 := by
  rw [h.scripts_eq, List.pairwise_map]
  refine h.distinct.imp_of_mem fun hf hf' hne he => hne ?_
  exact Path.absolutize_entry_inj hb (h.isName _ hf) (h.isName _ hf') he

end FoundBelow

namespace Node

variable {node : Node}

-- The entries of a directory lead to different scripts, as their names differ.
theorem exists_foundBelow_scriptsIn {entries : List (String × Node)} (hn : ∀ e ∈ entries, IsName e.1)
    (hd : entries.Pairwise (·.1 ≠ ·.1))
    (hat : ∀ e ∈ entries, ∀ p, ∃ found, FoundBelow p found (scriptsAt p e.1 e.2)) (p : Path) :
    ∃ found, FoundBelow p found (scriptsIn p entries) ∧ ∀ f ∈ found, ∃ e ∈ entries, f.1.head? = some e.1 := by
  induction entries
  case nil => exact ⟨[], .nil p, List.forall_mem_nil _⟩
  case cons e entries hi =>
    have ⟨hn, hns⟩ := List.forall_mem_cons.mp hn
    have ⟨hd, hds⟩ := List.pairwise_cons.mp hd
    have ⟨hat, hats⟩ := List.forall_mem_cons.mp hat
    have ⟨found, hfound⟩ := hat (p.join (.ofText e.1))
    have ⟨others, hothers, hheads⟩ := hi hns hds hats
    refine ⟨_, (hfound.enter hn).append hothers ?distinct, ?heads⟩
    case distinct =>
      intro f hf f' hf' he
      obtain ⟨g, _, rfl⟩ := List.mem_map.mp hf
      have ⟨e', he', hh⟩ := hheads f' hf'
      rw [← he, List.head?_cons] at hh
      exact hd e' he' (Option.some.inj hh)
    case heads =>
      intro f hf
      obtain hf | hf := List.mem_append.mp hf
      case inl =>
        obtain ⟨g, _, rfl⟩ := List.mem_map.mp hf
        exact ⟨e, .head _, rfl⟩
      case inr =>
        have ⟨e', he', hh⟩ := hheads f hf
        exact ⟨e', .tail _ he', hh⟩

theorem IsTree.exists_foundBelow (h : node.IsTree) (p : Path) (name : String) :
    ∃ found, FoundBelow p found (scriptsAt p name node) := by
  induction h generalizing p name
  case file linked content =>
    rw [scriptsAt.eq_def]
    simp only
    split
    case isTrue =>
      cases content
      case ok bytes => exact ⟨_, .self p _⟩
      case error    => exact ⟨_, .nil p⟩
    case isFalse => exact ⟨_, .nil p⟩
  case directory entries hn hd _ hi =>
    rw [scriptsAt]
    split
    case isTrue  => exact ⟨_, .nil p⟩
    case isFalse =>
      have ⟨found, hf, _⟩ := exists_foundBelow_scriptsIn hn hd (fun e he p => hi e he p e.1) p
      exact ⟨found, hf⟩

theorem IsTree.exists_foundBelow_entries (h : node.IsTree) (p : Path) :
    ∃ found, FoundBelow p found (scriptsIn p node.entries) := by
  cases h
  case file => exact ⟨_, .nil p⟩
  case directory hn hd ht =>
    have ⟨found, hf, _⟩ :=
      exists_foundBelow_scriptsIn hn hd (fun e he p => (ht e he).exists_foundBelow p e.1) p
    exact ⟨found, hf⟩

end Node

namespace Environment

variable {env : Environment}

theorem isTree_locate {p : Path} {node : Node} (h : env.locate p = .ok node) (ht : env.disk.IsTree) :
    node.IsTree := by
  have ⟨_, _, _, hd⟩ := locate_eq_ok_iff.mp h
  exact Node.isTree_locate hd ht

-- The scripts of a workspace are at different places, from wherever they are seen.
theorem pairwise_scripts (ht : env.disk.IsTree) (root : Path) {base : Path} (hb : base.isAbsolute) :
    (env.scripts root).Pairwise fun f f' => base.absolutize f.1 ≠ base.absolutize f'.1 := by
  rw [scripts]
  split
  case h_2 => exact .nil
  case h_1 node hl =>
    have ⟨found, hf⟩ := (isTree_locate hl ht).exists_foundBelow_entries root
    exact ((List.mergeSort_perm ..).pairwise_iff Ne.symm).mpr (hf.pairwise_absolutize hb)

end Environment

end ScriptMaps
