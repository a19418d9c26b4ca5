import ScriptMaps.Proofs.Include.Reachability

-- Each step takes a directive off a file on the way or leaves one. So there are as many steps as the files
-- that are opened have directives, and one more for each of them.

namespace ScriptMaps

namespace Walk

variable {r : Resolver} {sources : Sources} {w w' : Walk}

-- The file that a step has opened: the innermost one, if there are more files on the way than before.
def opened? (w w' : Walk) : Option Frame :=
  if w.stack.length < w'.stack.length then w'.stack.head? else none

-- The files that a walk opens on its next steps, each with all its directives.
def opened (r : Resolver) (sources : Sources) : Nat → Walk → List Frame
  | 0, _ => []
  | n + 1, w =>
    match w.step? r sources with
    | none    => []
    | some w' => (opened? w w').toList ++ opened r sources n w'

-- How many steps it takes to be done with files: one for each directive, and one to leave the file.
def effort (frames : List Frame) : Nat :=
  (frames.map (·.pending.length + 1)).sum

@[simp]
theorem effort_append (fs gs : List Frame) : effort (fs ++ gs) = effort fs + effort gs := by
  simp [effort]

theorem opened_succ (h : w.step? r sources = some w') (n : Nat) :
    opened r sources (n + 1) w = (opened? w w').toList ++ opened r sources n w' := by
  simp only [opened, h]

theorem advance_succ (h : w.step? r sources = some w') (n : Nat) :
    advance r sources (n + 1) w = advance r sources n w' := by
  simp only [advance, h]

namespace Step

-- A step does one of the things that are left to do, and adds what there is to do for the file it opens.
theorem effort_stack (s : Step r sources w w') :
    effort w.stack + effort (opened? w w').toList = effort w'.stack + 1 := by
  cases s <;> simp [opened?, effort] <;> omega

-- A file that is opened has just been listed.
theorem files_eq (s : Step r sources w w') :
    ∃ listed, w'.record.files = w.record.files ++ listed ∧
      ((opened? w w').toList.map (·.path)).Sublist listed := by
  cases s
  case enter target _ _ _ _ _ => exact ⟨[target], rfl, by simp [opened?]⟩
  case fail target _ _ _ _ _  => exact ⟨[target], rfl, by simp [opened?]⟩
  all_goals exact ⟨[], by simp, by simp [opened?]⟩

end Step

-- The walk is over once it is done with the files on the way and with those that it opens. That there is
-- such a number of steps is what the induction along the run gives; it goes down in the order of loads.
theorem exists_stack_advance_eq_nil (r : Resolver) (sources : Sources) (w : Walk) :
    ∃ n, (advance r sources n w).stack = [] ∧
      n = effort w.stack + effort (opened r sources n w) := by
  induction w using run.induct r sources
  case case1 w h =>
    have hs := step?_eq_none h
    exact ⟨0, hs, by simp [hs, opened, effort]⟩
  case case2 w w' h hi =>
    obtain ⟨n, hs, hn⟩ := hi
    have he := (Step.of_step? h).effort_stack
    refine ⟨n + 1, advance_succ h n ▸ hs, ?_⟩
    rw [opened_succ h, effort_append]
    omega

theorem files_advance (r : Resolver) (sources : Sources) (n : Nat) (w : Walk) :
    ∃ listed, (advance r sources n w).record.files = w.record.files ++ listed ∧
      ((opened r sources n w).map (·.path)).Sublist listed := by
  induction n generalizing w
  case zero => exact ⟨[], by simp [advance], by simp [opened]⟩
  case succ n hi =>
    cases h : w.step? r sources
    case none => exact ⟨[], by simp [advance, h], by simp [opened, h]⟩
    case some w' =>
      obtain ⟨first, hf, ho⟩ := (Step.of_step? h).files_eq
      obtain ⟨later, hf', ho'⟩ := hi w'
      refine ⟨first ++ later, ?files, ?opened⟩
      case files => rw [advance_succ h, hf', hf, List.append_assoc]
      case opened =>
        rw [opened_succ h, List.map_append]
        exact ho.append ho'

theorem stack_start (sources : Sources) (root : Path) :
    (start sources root).record.files = [] ∧
      ((start sources root).stack.map (·.path)).Sublist [root] := by
  obtain ⟨_, hs, _, hf, _⟩ | ⟨_, _, _, hs⟩ := start_cases sources root
  case inl => simp [hs, hf]
  case inr => simp [hs]

end Walk

-- A walk from any file comes to an end, after as many steps as the files it has opened have directives
-- and one more for each. Over all these steps no file is opened twice, under whatever path.
theorem Resolver.traverse_opens_once (r : Resolver) (sources : Sources) (file : Path) :
    let w := Walk.start sources (r.absolutize file)
    ∃ n, (w.advance r sources n).stack = [] ∧
      r.traverse sources file = (w.advance r sources n).record ∧
      n = ((w.stack ++ w.opened r sources n).map (·.pending.length + 1)).sum ∧
      (w.stack ++ w.opened r sources n).Pairwise fun f g => ¬f.path.identity == g.path.identity := by
  intro w
  have ⟨n, hs, hn⟩ := w.exists_stack_advance_eq_nil r sources
  have ht : r.traverse sources file = (w.advance r sources n).record := traverse_eq_advance n hs
  refine ⟨n, hs, ht, ?steps, ?once⟩
  case steps => rwa [← Walk.effort, Walk.effort_append]
  case once =>
    have ⟨hnil, hroot⟩ := Walk.stack_start sources (r.absolutize file)
    have ⟨listed, hf, ho⟩ := w.files_advance r sources n
    have hfiles : (r.traverse sources file).files = listed := by rw [ht, hf, hnil, List.nil_append]
    have hsub : ((w.stack ++ w.opened r sources n).map (·.path)).Sublist
        (r.traverse sources file).entered := by
      rw [List.map_append, Traversal.entered, root_traverse, hfiles]
      exact hroot.append ho
    have hent : ((r.traverse sources file).entered).Pairwise (¬·.identity == ·.identity) := by
      refine pairwise_entered.imp_of_mem ?_
      intro p q hp hq hne
      rwa [identity_of_mem_entered hp, identity_of_mem_entered hq]
    exact List.pairwise_map.mp <| hent.sublist hsub

-- Every path is a file, and every file includes one that lies deeper: only the depth ends the walk.
example :
    let r := Resolver.mk (.ofText "/") none [] 3
    let sources : Sources := ⟨fun _ => true, fun _ => .ok "#include \"x/f\"\n#include \"f\"\n"⟩
    (r.traverse sources (.ofText "/f")).files.map (·.text) = ["/x/f", "/x/x/f", "/x/x/x/f"] := by
  intro r sources
  rw [Resolver.traverse_eq_advance 12 (by decide +kernel)]
  decide +kernel

end ScriptMaps
