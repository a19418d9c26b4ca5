import ScriptMaps.Include.Resolver

namespace ScriptMaps

structure IncludeEdge where
  source    : Path
  target    : Path
  directive : Include

structure UnresolvedInclude where
  source    : Path
  directive : Include
  searched  : List Path

structure ReadFailure where
  path   : Path
  reason : String

-- The files are those entered, and the edges the directives by which they were entered, in the same order.
structure Traversal where
  root         : Path
  files        : List Path := []
  edges        : List IncludeEdge := []
  unresolved   : List UnresolvedInclude := []
  readFailures : List ReadFailure := []
  revisited    : Nat := 0
  truncated    : Nat := 0

-- A file on the way of a walk, with its depth below the root.
structure Frame where
  path    : Path
  depth   : Nat
  pending : List Include

-- A walk under way. The innermost file is the first of the stack, and visited are the identities of all files
-- entered.
structure Walk where
  record  : Traversal
  visited : List Path
  stack   : List Frame

namespace Walk

-- How much is left of a walk: for each file on the way, how much deeper the walk may go from there and
-- how many directives are pending.
structure Load where
  frames : List (Nat × Nat)

-- A file without directives is dropped, or a directive is taken off a file, after which a file may be entered
-- that lies deeper.
inductive Load.Less : Load → Load → Prop
  | leave {room frames} : Less ⟨frames⟩ ⟨(room, 0) :: frames⟩
  | take {room count frames} : Less ⟨(room, count) :: frames⟩ ⟨(room, count + 1) :: frames⟩
  | enter {room room' count count' frames} (h : room' < room) :
    Less ⟨(room', count') :: (room, count) :: frames⟩ ⟨(room, count + 1) :: frames⟩

namespace Load

theorem acc_cons (room : Nat) {frames : List (Nat × Nat)} (h : Acc Less ⟨frames⟩) (count : Nat) :
    Acc Less ⟨(room, count) :: frames⟩ := by
  induction room using Nat.strongRecOn generalizing frames count
  case ind room hroom =>
    induction count
    case zero => exact .intro _ fun | _, .leave => h
    case succ count hcount =>
      refine .intro _ fun load hless => ?_
      cases hless
      case take             => exact hcount
      case enter count' hlt => exact hroom _ hlt hcount count'

theorem less_wf : WellFounded Less := by
  refine .intro fun ⟨frames⟩ => ?_
  induction frames
  case nil => exact .intro _ fun _ h => nomatch h
  case cons frame _ hi => exact acc_cons frame.1 hi frame.2

instance : WellFoundedRelation Load :=
  ⟨Less, less_wf⟩

end Load

def load (maxDepth : Nat) (w : Walk) : Load :=
  ⟨w.stack.map fun frame => (maxDepth - frame.depth, frame.pending.length)⟩

-- Enters a file: its directives become the next ones to follow. A path without a file is passed over.
def enter (w : Walk) (sources : Sources) (path : Path) (depth : Nat) : Walk :=
  if sources.isFile path then
    match sources.read path with
    | .ok text => { w with stack := ⟨path, depth, Include.ofText text⟩ :: w.stack }
    | .error e =>
      let failures := w.record.readFailures ++ [⟨path, e.message⟩]
      { w with record := { w.record with readFailures := failures } }
  else w

def visit (w : Walk) (source target : Path) (directive : Include) : Walk where
  record  :=
    { w.record with
      files := w.record.files ++ [target]
      edges := w.record.edges ++ [⟨source, target, directive⟩] }
  visited := target.identity :: w.visited
  stack   := w.stack

def follow (w : Walk) (r : Resolver) (sources : Sources) (source : Path) (depth : Nat)
    (directive : Include) : Walk :=
  match r.resolve sources source directive with
  | .missing searched =>
    let unresolved := w.record.unresolved ++ [⟨source, directive, searched⟩]
    { w with record := { w.record with unresolved } }
  | .found target =>
    if w.visited.contains target.identity then
      { w with record := { w.record with revisited := w.record.revisited + 1 } }
    else if r.maxDepth ≤ depth then
      { w with record := { w.record with truncated := w.record.truncated + 1 } }
    else (w.visit source target directive).enter sources target (depth + 1)

-- The innermost file's next directive is followed, or the file is left. A walk that has left all files is over.
def step? (w : Walk) (r : Resolver) (sources : Sources) : Option Walk :=
  match w.stack with
  | [] => none
  | ⟨_, _, []⟩ :: rest => some { w with stack := rest }
  | ⟨path, depth, directive :: pending⟩ :: rest =>
    some (follow { w with stack := ⟨path, depth, pending⟩ :: rest } r sources path depth directive)

theorem stack_enter (w : Walk) (sources : Sources) (path : Path) (depth : Nat) :
    (w.enter sources path depth).stack = w.stack ∨
      ∃ pending, (w.enter sources path depth).stack = ⟨path, depth, pending⟩ :: w.stack := by
  unfold enter
  split
  case isFalse => exact .inl rfl
  case isTrue  =>
    split
    case h_1 => exact .inr ⟨_, rfl⟩
    case h_2 => exact .inl rfl

theorem stack_follow (w : Walk) (r : Resolver) (sources : Sources) (source : Path) (depth : Nat)
    (directive : Include) :
    (w.follow r sources source depth directive).stack = w.stack ∨
      depth < r.maxDepth ∧ ∃ path pending,
        (w.follow r sources source depth directive).stack = ⟨path, depth + 1, pending⟩ :: w.stack := by
  unfold follow
  split
  case h_1 => exact .inl rfl
  case h_2 target _ =>
    split
    case isTrue  => exact .inl rfl
    case isFalse =>
      split
      case isTrue    => exact .inl rfl
      case isFalse h =>
        refine (stack_enter (w.visit source target directive) sources target (depth + 1)).imp id ?_
        exact fun ⟨pending, he⟩ => ⟨Nat.lt_of_not_le h, target, pending, he⟩

theorem load_step? {w w' : Walk} {r : Resolver} {sources : Sources} (h : w.step? r sources = some w') :
    Load.Less (w'.load r.maxDepth) (w.load r.maxDepth) := by
  unfold step? at h
  split at h
  case h_1    => cases h
  case h_2 hs =>
    cases h
    simpa [load, hs] using .leave
  case h_3 path depth directive pending rest hs =>
    cases h
    cases stack_follow { w with stack := ⟨path, depth, pending⟩ :: rest } r sources path depth directive
    case inl he => simpa [load, hs, he] using .take
    case inr he =>
      have ⟨hd, _, _, he⟩ := he
      simpa [load, hs, he] using .enter (by omega)

def run (w : Walk) (r : Resolver) (sources : Sources) : Walk :=
  match _h : w.step? r sources with
  | none => w
  | some w' => run w' r sources
termination_by w.load r.maxDepth
decreasing_by exact load_step? _h

def start (sources : Sources) (root : Path) : Walk :=
  enter ⟨{ root }, [root.identity], []⟩ sources root 0

end Walk

def Resolver.traverse (r : Resolver) (sources : Sources) (file : Path) : Traversal :=
  ((Walk.start sources (r.absolutize file)).run r sources).record

end ScriptMaps
