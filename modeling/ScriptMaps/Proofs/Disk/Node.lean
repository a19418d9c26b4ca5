import ScriptMaps.Disk.Script
import ScriptMaps.Proofs.Path.Join

namespace ScriptMaps

namespace Node

-- A node that can be gone through.
def IsDirectory (n : Node) : Prop :=
  ∃ entries, n = .directory entries

variable {segment : List Char} {segments : List (List Char)} {place place' : Node × List Node}

-- Only a name leads away from the directories that were gone through.
theorem go_cases (h : go segment place = .ok place') :
    place'.1 ∈ place.2 ∧ place'.2 ⊆ place.2 ∨
    place'.1 = place.1 ∧ place'.2 = place.2 ∧ place.1.IsDirectory ∨
    place'.2 = place.1 :: place.2 ∧ place.1.IsDirectory ∧ (∃ name, (name, place'.1) ∈ place.1.entries) ∧
      Component.ofSegment? segment = some (.name (String.ofList segment)) := by
  obtain ⟨_ | entries, above⟩ := place
  case file => simp [go] at h
  case directory =>
    have hd : (directory entries).IsDirectory := ⟨entries, rfl⟩
    simp only [go] at h
    split at h
    case isTrue =>
      cases h
      exact .inr <| .inl ⟨rfl, rfl, hd⟩
    case isFalse hidle =>
      split at h
      case isTrue =>
        cases above <;> cases h
        case nil  => exact .inr <| .inl ⟨rfl, rfl, hd⟩
        case cons => exact .inl ⟨by simp, by simp⟩
      case isFalse hup =>
        have hs : Component.ofSegment? segment = some (.name (String.ofList segment)) := by
          unfold Component.ofSegment?
          split <;> simp_all [Path.isIdle]
        split at h
        case isTrue => cases h
        case isFalse =>
          split at h <;> cases h
          case h_1.refl node hl =>
            have ⟨_, _, he, _⟩ := List.lookup_eq_some_iff.mp hl
            exact .inr <| .inr ⟨rfl, hd, ⟨.ofList segment, by simp [Node.entries, he]⟩, hs⟩

theorem isDirectory_above_go (h : go segment place = .ok place') (hp : ∀ n ∈ place.2, n.IsDirectory) :
    ∀ n ∈ place'.2, n.IsDirectory := by
  obtain ⟨_, hs⟩ | ⟨_, hs, _⟩ | ⟨hs, hd, _⟩ := go_cases h
  case inl     => exact fun n hn => hp n (hs hn)
  case inr.inl => exact hs ▸ hp
  case inr.inr => simpa [hs] using ⟨hd, hp⟩

theorem isDirectory_above (h : segments.foldlM (fun place segment => go segment place) place = .ok place')
    (hp : ∀ n ∈ place.2, n.IsDirectory) : ∀ n ∈ place'.2, n.IsDirectory := by
  induction segments generalizing place
  case nil =>
    cases h
    exact hp
  case cons segment segments hi =>
    rw [List.foldlM_cons] at h
    cases hg : go segment place <;> simp only [hg, bind, Except.bind] at h
    case error => cases h
    case ok    => exact hi h <| isDirectory_above_go hg hp

theorem name_of_go_file (h : go segment place = .ok place') (hp : ∀ n ∈ place.2, n.IsDirectory)
    (hf : ¬place'.1.IsDirectory) :
    Component.ofSegment? segment = some (.name (String.ofList segment)) := by
  obtain ⟨hm, _⟩ | ⟨he, _, hd⟩ | ⟨_, _, _, hs⟩ := go_cases h
  case inl     => exact absurd (hp _ hm) hf
  case inr.inl => exact absurd (he ▸ hd) hf
  case inr.inr => exact hs

-- The last segment of a path that leads to a file is the file's name.
theorem name_of_locate {tree node : Node} {p : Path} (h : tree.locate p = .ok node)
    (hf : ¬node.IsDirectory) {before : List (List Char)} {last : List Char}
    (hs : p.text.toList.splitOn '/' = before ++ [last]) :
    Component.ofSegment? last = some (.name (String.ofList last)) := by
  rw [locate, hs, List.foldlM_append] at h
  cases hb : before.foldlM (fun place segment => go segment place) (tree, []) <;>
    simp only [hb, bind, Except.bind, List.foldlM_cons, List.foldlM_nil] at h
  case error => cases h
  case ok place =>
    cases hg : go last place <;> simp only [hg] at h <;> cases h
    exact name_of_go_file hg (isDirectory_above hb <| by simp) hf

end Node

namespace Path

-- What is joined to a path is what the joined path ends in.
theorem splitOn_join (p q : Path) :
    ∃ before, (p.join q).text.toList.splitOn '/' = before ++ q.text.toList.splitOn '/' := by
  by_cases h : q.isAbsolute
  case pos => exact ⟨[], by rw [join_of_isAbsolute h, List.nil_append]⟩
  case neg =>
    obtain ⟨_, hj⟩ | ⟨before, _, hj⟩ := toList_join (p := p) h
    case inl => exact ⟨[], by rw [hj, List.nil_append]⟩
    case inr =>
      refine ⟨before.splitOn '/', ?_⟩
      rw [hj, List.splitOn_append_cons_self]

-- A path that ends in a name has a normal form: nothing after the name takes it away.
theorem normalize?_ne_none_of_name {p : Path} {before : List (List Char)} {last : List Char} {name : String}
    (hs : p.text.toList.splitOn '/' = before ++ [last])
    (hl : Component.ofSegment? last = some (.name name)) : p.normalize? ≠ none := by
  simp [normalize?_eq_none_iff, settled, p.components_eq, Component.ofText, hs, hl, settle]

end Path

namespace Environment

variable {env : Environment} {p : Path}

theorem locate_eq_ok_iff {node : Node} :
    env.locate p = .ok node ↔
      p.text.toList ≠ [] ∧ '\x00' ∉ p.text.toList ∧ ¬p.isTooLong ∧
        env.disk.locate (env.workingDir.join p) = .ok node := by
  rw [locate]
  split
  case isTrue h  => simp_all
  case isFalse h =>
    split
    case isTrue h'  => simp_all
    case isFalse h' => split <;> simp_all

theorem normalize?_ne_none_of_readScript {text : String} (h : env.readScript p = .ok text) :
    p.normalize? ≠ none := by
  have ⟨node, hl, hn⟩ : ∃ node, env.locate p = .ok node ∧ ¬node.IsDirectory := by
    rw [readScript, bytes] at h
    cases hl : env.locate p <;> simp only [hl, bind, Except.bind] at h
    case error => cases h
    case ok node =>
      cases node
      case file      => exact ⟨_, rfl, fun ⟨_, hd⟩ => nomatch hd⟩
      case directory => cases h
  have ⟨_, _, _, hd⟩ := locate_eq_ok_iff.mp hl
  obtain ⟨before, hj⟩ := Path.splitOn_join env.workingDir p
  obtain ⟨front, last, hp⟩ : ∃ front last, p.text.toList.splitOn '/' = front ++ [last] :=
    ⟨_, _, (List.dropLast_concat_getLast <| List.splitOn_ne_nil _ _).symm⟩
  rw [hp, ← List.append_assoc] at hj
  exact Path.normalize?_ne_none_of_name hp <| Node.name_of_locate hd hn hj

end Environment

end ScriptMaps
