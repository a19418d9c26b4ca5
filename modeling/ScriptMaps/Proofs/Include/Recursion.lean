import ScriptMaps.Proofs.Include.Walk

-- What a file includes is visited to the end before the file's next directive is looked at.

namespace ScriptMaps

-- What one visit passes on to the next: the record so far and the identities of all files entered.
structure Visit where
  record  : Traversal
  visited : List Path

namespace Visit

mutual

-- Visits a file that lies at `depth`. A path without a file changes nothing, and a file that cannot be
-- read is recorded. Otherwise the directives of the file are followed in line order.
def visit (v : Visit) (r : Resolver) (sources : Sources) (path : Path) (depth : Nat) : Visit :=
  if sources.isFile path then
    match sources.read path with
    | .ok text =>
      (Include.ofText text).foldl
        (fun v d => v.follow r sources path depth d (r.resolve sources path d)) v
    | .error e => { v with record.readFailures := v.record.readFailures ++ [⟨path, e.message⟩] }
  else v
termination_by (r.maxDepth - depth, 1)

-- Follows a directive of the file `path` with all that comes of it, given what it resolves to.
def follow (v : Visit) (r : Resolver) (sources : Sources) (path : Path) (depth : Nat)
    (directive : Include) (resolution : Resolution) : Visit :=
  match resolution with
  | .missing searched =>
    { v with record.unresolved := v.record.unresolved ++ [⟨path, directive, searched⟩] }
  | .found target =>
    if v.visited.contains target.identity then
      { v with record.revisited := v.record.revisited + 1 }
    else if h : depth ≥ r.maxDepth then
      { v with record.truncated := v.record.truncated + 1 }
    else
      let entered : Visit :=
        { visited := target.identity :: v.visited
          record  :=
            { v.record with
              files := v.record.files ++ [target]
              edges := v.record.edges ++ [⟨path, target, directive⟩] } }
      entered.visit r sources target (depth + 1)
termination_by (r.maxDepth - depth, 0)

end

-- Follows directives of the file `path` one after the other.
def followAll (v : Visit) (r : Resolver) (sources : Sources) (path : Path) (depth : Nat)
    (directives : List Include) : Visit :=
  directives.foldl (fun v d => v.follow r sources path depth d (r.resolve sources path d)) v

-- Takes up a walk from what a visit has left behind.
def resume (v : Visit) (stack : List Frame) : Walk :=
  ⟨v.record, v.visited, stack⟩

-- Before the first visit only the root counts as entered.
def start (root : Path) : Visit :=
  ⟨{ root }, [root.identity]⟩

end Visit

namespace Walk

variable {r : Resolver} {sources : Sources} {v : Visit} {path : Path} {depth : Nat}
variable {stack : List Frame}

-- Entering a file is visiting it, if following what is pending on top of the stack is.
theorem run_enter
    (h : ∀ pending, (v.resume (⟨path, depth, pending⟩ :: stack)).run r sources =
      ((v.followAll r sources path depth pending).resume stack).run r sources) :
    ((v.resume stack).enter sources path depth).run r sources =
      ((v.visit r sources path depth).resume stack).run r sources := by
  rw [enter, Visit.visit]
  cases sources.isFile path
  case false => rfl
  case true =>
    cases sources.read path
    case error e => rfl
    case ok text => exact h _

-- Following a directive on top of the stack is following it in a visit, if entering a deeper file is
-- visiting it.
theorem run_follow {directive : Include}
    (h : depth < r.maxDepth → ∀ (v : Visit) target,
      ((v.resume stack).enter sources target (depth + 1)).run r sources =
        ((v.visit r sources target (depth + 1)).resume stack).run r sources) :
    ((v.resume stack).follow r sources path depth directive).run r sources =
      ((v.follow r sources path depth directive (r.resolve sources path directive)).resume stack).run
        r sources := by
  rw [follow]
  cases r.resolve sources path directive
  case missing searched => simp only [Visit.follow, Visit.resume]
  case found target =>
    by_cases hv : v.visited.contains target.identity
    case pos => simp only [Visit.follow, Visit.resume, hv, ↓reduceIte]
    case neg =>
      by_cases hd : r.maxDepth ≤ depth
      case pos => simp [Visit.follow, Visit.resume, hv, hd]
      case neg =>
        simp only [Visit.follow, Visit.resume, hv, hd, ↓reduceIte, ↓reduceDIte, Bool.false_eq_true]
        exact h (by omega) ⟨_, _⟩ target

-- A file on the way is left once its directives have been followed, and what lies below it on the
-- stack has no part in that. The induction is on how much deeper the walk may go from the file, and
-- within that on the pending directives.
theorem run_frame (v : Visit) (path : Path) (depth : Nat) (pending : List Include)
    (stack : List Frame) :
    (v.resume (⟨path, depth, pending⟩ :: stack)).run r sources =
      ((v.followAll r sources path depth pending).resume stack).run r sources := by
  induction hr : r.maxDepth - depth using Nat.strongRecOn generalizing v path depth pending stack
  case ind room hi =>
    induction pending generalizing v
    case nil => exact run_of_step? rfl
    case cons directive pending hp =>
      rw [Visit.followAll, List.foldl_cons, ← Visit.followAll, ← hp, run_of_step? rfl]
      apply run_follow
      intro hd v target
      exact run_enter fun pending => hi _ (by omega) v target _ pending _ rfl

end Walk

-- The record of a walk is that of visiting its root.
theorem Resolver.traverse_eq_visit (r : Resolver) (sources : Sources) (file : Path) :
    r.traverse sources file =
      ((Visit.start (r.absolutize file)).visit r sources (r.absolutize file) 0).record := by
  have h := @Walk.run_enter r sources _ _ _ _ fun pending =>
    Walk.run_frame (Visit.start (r.absolutize file)) (r.absolutize file) 0 pending []
  have hs : Walk.start sources (r.absolutize file) =
      ((Visit.start (r.absolutize file)).resume []).enter sources (r.absolutize file) 0 := rfl
  rw [traverse, hs, h, Walk.run_of_stack_eq_nil rfl]
  rfl

end ScriptMaps
