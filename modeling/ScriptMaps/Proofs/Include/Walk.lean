import ScriptMaps.Proofs.Include.Resolution
import ScriptMaps.Include.Traversal

namespace ScriptMaps

namespace Walk

variable {r : Resolver} {sources : Sources} {w w' : Walk}

-- What one step of a walk can do. A file that a directive leads to is there, so it is entered unless
-- reading it fails.
inductive Step (r : Resolver) (sources : Sources) : Walk → Walk → Prop
  | leave {record visited path depth stack} :
    Step r sources ⟨record, visited, ⟨path, depth, []⟩ :: stack⟩ ⟨record, visited, stack⟩
  | miss {record visited path depth directive pending stack searched}
      (resolve : r.resolve sources path directive = .missing searched) :
    Step r sources
      ⟨record, visited, ⟨path, depth, directive :: pending⟩ :: stack⟩
      ⟨{ record with unresolved := record.unresolved ++ [⟨path, directive, searched⟩] }, visited,
        ⟨path, depth, pending⟩ :: stack⟩
  | revisit {record visited path depth directive pending stack target}
      (resolve : r.resolve sources path directive = .found target)
      (seen : visited.contains target.identity) :
    Step r sources
      ⟨record, visited, ⟨path, depth, directive :: pending⟩ :: stack⟩
      ⟨{ record with revisited := record.revisited + 1 }, visited, ⟨path, depth, pending⟩ :: stack⟩
  | truncate {record visited path depth directive pending stack target}
      (resolve : r.resolve sources path directive = .found target)
      (fresh : ¬visited.contains target.identity) (bound : r.maxDepth ≤ depth) :
    Step r sources
      ⟨record, visited, ⟨path, depth, directive :: pending⟩ :: stack⟩
      ⟨{ record with truncated := record.truncated + 1 }, visited, ⟨path, depth, pending⟩ :: stack⟩
  | enter {record visited path depth directive pending stack target text}
      (resolve : r.resolve sources path directive = .found target)
      (fresh : ¬visited.contains target.identity) (bound : depth < r.maxDepth)
      (read : sources.read target = .ok text) :
    Step r sources
      ⟨record, visited, ⟨path, depth, directive :: pending⟩ :: stack⟩
      ⟨{ record with
          files := record.files ++ [target]
          edges := record.edges ++ [⟨path, target, directive⟩] },
        target.identity :: visited,
        ⟨target, depth + 1, Include.ofText text⟩ :: ⟨path, depth, pending⟩ :: stack⟩
  | fail {record visited path depth directive pending stack target error}
      (resolve : r.resolve sources path directive = .found target)
      (fresh : ¬visited.contains target.identity) (bound : depth < r.maxDepth)
      (read : sources.read target = .error error) :
    Step r sources
      ⟨record, visited, ⟨path, depth, directive :: pending⟩ :: stack⟩
      ⟨{ record with
          files        := record.files ++ [target]
          edges        := record.edges ++ [⟨path, target, directive⟩]
          readFailures := record.readFailures ++ [⟨target, error.message⟩] },
        target.identity :: visited,
        ⟨path, depth, pending⟩ :: stack⟩

theorem step_follow (record : Traversal) (visited : List Path) (path : Path) (depth : Nat)
    (directive : Include) (pending : List Include) (stack : List Frame) :
    Step r sources
      ⟨record, visited, ⟨path, depth, directive :: pending⟩ :: stack⟩
      (follow ⟨record, visited, ⟨path, depth, pending⟩ :: stack⟩ r sources path depth directive) := by
  rw [follow]
  split
  case h_1 hr => exact .miss hr
  case h_2 target hr =>
    split
    case isTrue hv => exact .revisit hr hv
    case isFalse hv =>
      split
      case isTrue hd => exact .truncate hr hv hd
      case isFalse hd =>
        simp only [visit, Walk.enter, Resolver.isFile_of_resolve hr, ↓reduceIte]
        split
        case h_1 ht => exact .enter hr hv (by omega) ht
        case h_2 he => exact .fail hr hv (by omega) he

theorem Step.of_step? (h : w.step? r sources = some w') : Step r sources w w' := by
  have ⟨record, visited, stack⟩ := w
  rw [step?] at h
  split at h <;> simp at h
  case h_2 hs =>
    cases hs
    exact h ▸ .leave
  case h_3 hs =>
    cases hs
    exact h ▸ step_follow ..

theorem step?_eq_none (h : w.step? r sources = none) : w.stack = [] := by
  rw [step?] at h
  split at h <;> simp at h
  case h_1 hs => exact hs

theorem run_of_step? (h : w.step? r sources = some w') : w.run r sources = w'.run r sources := by
  rw [run]
  split <;> simp_all

theorem run_of_stack_eq_nil (h : w.stack = []) : w.run r sources = w := by
  have hs : w.step? r sources = none := by simp [step?, h]
  rw [run]
  split <;> simp_all

theorem stack_run (w : Walk) : (w.run r sources).stack = [] := by
  induction w using run.induct r sources
  case case1 w h       => exact (run_of_stack_eq_nil <| step?_eq_none h).symm ▸ step?_eq_none h
  case case2 w w' h hi => rwa [run_of_step? h]

-- What every step preserves is preserved by a run.
theorem run_preserves {p : Walk → Prop} (hs : ∀ {w w'}, Step r sources w w' → p w → p w')
    (h : p w) : p (w.run r sources) := by
  induction w using run.induct r sources
  case case1 w hn        => exact (run_of_stack_eq_nil <| step?_eq_none hn).symm ▸ h
  case case2 w w' hw' hi => exact run_of_step? hw' ▸ hi (hs (.of_step? hw') h)

-- The walk after a number of steps, or where it is over before that.
def advance (r : Resolver) (sources : Sources) : Nat → Walk → Walk
  | 0, w => w
  | n + 1, w =>
    match w.step? r sources with
    | none    => w
    | some w' => advance r sources n w'

theorem advance_preserves {p : Walk → Prop} (hs : ∀ {w w'}, Step r sources w w' → p w → p w')
    (n : Nat) (h : p w) : p (advance r sources n w) := by
  induction n generalizing w
  case zero => exact h
  case succ n hi =>
    rw [advance]
    split
    case h_1        => exact h
    case h_2 w' hw' => exact hi <| hs (.of_step? hw') h

theorem run_advance (n : Nat) : (advance r sources n w).run r sources = w.run r sources := by
  induction n generalizing w
  case zero => rfl
  case succ n hi =>
    rw [advance]
    split
    case h_1        => rfl
    case h_2 w' hw' => rw [hi, run_of_step? hw']

-- A run can be computed as the steps it takes.
theorem run_eq_advance (n : Nat) (h : (advance r sources n w).stack = []) :
    w.run r sources = advance r sources n w := by
  rw [← run_advance n, run_of_stack_eq_nil h]

end Walk

theorem Resolver.traverse_eq_advance {r : Resolver} {sources : Sources} {file : Path} (n : Nat)
    (h : (Walk.advance r sources n <| .start sources <| r.absolutize file).stack = []) :
    r.traverse sources file = (Walk.advance r sources n <| .start sources <| r.absolutize file).record :=
  congrArg Walk.record <| Walk.run_eq_advance n h

end ScriptMaps
