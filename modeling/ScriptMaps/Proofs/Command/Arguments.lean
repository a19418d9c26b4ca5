import Mathlib.Data.List.Induction
import ScriptMaps.Command.Options

namespace ScriptMaps
open Text

-- A state that is put together from what has been taken so far. All elements can be taken if each of them
-- is right, and the state then is the one of all of them.
theorem foldlM_eq_ok_iff {α ε σ : Type} {f : σ → α → Except ε σ} {state : List α → σ} {P : α → Prop}
    {as : List α} {s : σ} (hok : ∀ done a, P a → f (state done) a = .ok (state (done ++ [a])))
    (hright : ∀ done, ∀ a ∈ as, ∀ s, f (state done) a = .ok s → P a) :
    as.foldlM f (state []) = .ok s ↔ (∀ a ∈ as, P a) ∧ s = state as := by
  induction as using List.reverseRecOn generalizing s
  case nil => simp [pure, Except.pure, eq_comm]
  case append_singleton as a hi =>
    replace hi {s : σ} := @hi s fun done b hb => hright done b (List.mem_append_left _ hb)
    rw [List.foldlM_append, List.forall_mem_append, List.forall_mem_singleton]
    constructor
    case mp =>
      intro h
      cases hs : as.foldlM f (state []) <;> simp only [hs, bind, Except.bind] at h
      case error => cases h
      case ok s' =>
        obtain ⟨hall, rfl⟩ := hi.mp hs
        have h : f (state as) a = .ok s := (bind_pure _).symm.trans h
        have ha := hright as a (List.mem_append_right _ <| List.mem_singleton_self a) s h
        refine ⟨⟨hall, ha⟩, ?_⟩
        rw [hok as a ha] at h
        cases h
        rfl
    case mpr =>
      rintro ⟨⟨hall, ha⟩, rfl⟩
      rw [hi.mpr ⟨hall, rfl⟩]
      exact (bind_pure _).trans (hok as a ha)

-- What is taken without a failure can be taken by itself in some state.
theorem exists_step_of_foldlM {α ε σ : Type} {f : σ → α → Except ε σ} {as : List α} {s s' : σ} {a : α}
    (h : as.foldlM f s = .ok s') (ha : a ∈ as) : ∃ before next, f before a = .ok next := by
  induction as generalizing s
  case nil => cases ha
  case cons b as hi =>
    rw [List.foldlM_cons] at h
    cases hb : f s b <;> simp only [hb, bind, Except.bind] at h
    case error => cases h
    case ok next =>
      obtain rfl | ha := List.mem_cons.mp ha
      case inl => exact ⟨s, next, hb⟩
      case inr => exact hi h ha

namespace Argument

-- The arguments that make up a group.
def words : Argument → List String
  | .plain text        => [text]
  | .valued flag value => flag :: value.toList

-- Whether a group is one that flags with values can make.
def Fits (takesValue : String → Bool) : Argument → Prop
  | .plain text    => takesValue text = false
  | .valued flag _ => takesValue flag

-- The flag of a group; a text that does not begin with two dashes is none.
def flag? : Argument → Option String
  | .plain text    => if "--".toList.isPrefixOf text.toList then some text else none
  | .valued flag _ => some flag

-- The value that a group gives to a flag.
def valueOf? (flag : String) : Argument → Option String
  | .valued flag' (some value) => if flag' = flag then some value else none
  | _                          => none

-- The text of a group that is no flag.
def positional? : Argument → Option String
  | .plain text => if "--".toList.isPrefixOf text.toList then none else some text
  | .valued _ _ => none

-- The values that groups give to a flag, in order.
def values (flag : String) (groups : List Argument) : List String :=
  groups.filterMap (valueOf? flag)

-- The texts of the groups that are no flags, in order.
def positionals (groups : List Argument) : List String :=
  groups.filterMap positional?

-- Two orders of the same groups: groups with the same flag, and those without one, stand in the same order.
def Reordered (groups groups' : List Argument) : Prop :=
  ∀ flag, groups.filter (·.flag? = flag) = groups'.filter (·.flag? = flag)

variable {takesValue : String → Bool} {groups groups' : List Argument}

theorem words_ne_nil (a : Argument) : a.words ≠ [] := by
  cases a <;> simp [words]

theorem filter_flag?_eq_nil {flag : Option String} (h : flag ∉ groups.map flag?) :
    groups.filter (·.flag? = flag) = [] :=
  List.filter_eq_nil_iff.mpr fun a ha he => h <| List.mem_map.mpr ⟨a, ha, of_decide_eq_true he⟩

-- Flags that no group has make no difference.
theorem reordered_iff : Reordered groups groups' ↔ ∀ flag ∈ (groups ++ groups').map flag?,
    groups.filter (·.flag? = flag) = groups'.filter (·.flag? = flag) := by
  refine ⟨fun h flag _ => h flag, fun h flag => ?_⟩
  by_cases hf : flag ∈ (groups ++ groups').map flag?
  case pos => exact h flag hf
  case neg =>
    rw [List.map_append, List.mem_append, not_or] at hf
    rw [filter_flag?_eq_nil hf.left, filter_flag?_eq_nil hf.right]

instance : Decidable (Reordered groups groups') :=
  decidable_of_iff' _ reordered_iff

theorem group_cons_of_not {text : String} (h : takesValue text = false) (rest : List String) :
    group takesValue (text :: rest) = .plain text :: group takesValue rest := by
  cases rest <;> simp [group, h]

theorem group_cons_cons {flag : String} (h : takesValue flag) (value : String) (rest : List String) :
    group takesValue (flag :: value :: rest) = .valued flag (some value) :: group takesValue rest := by
  simp [group, h]

theorem group_singleton {flag : String} (h : takesValue flag) :
    group takesValue [flag] = [.valued flag none] := by
  simp [group, h]

theorem flatMap_words_group (args : List String) : (group takesValue args).flatMap words = args := by
  induction args using group.induct takesValue
  case case1                   => rfl
  case case2 text h            => rw [group_singleton h]; rfl
  case case3 text h value _ hi => rw [group_cons_cons h, List.flatMap_cons, hi]; rfl
  case case4 text rest h hi    => rw [group_cons_of_not (by simpa using h), List.flatMap_cons, hi]; rfl

theorem fits_of_mem_group {args : List String} {a : Argument} (h : a ∈ group takesValue args) :
    a.Fits takesValue := by
  induction args using group.induct takesValue
  case case1 => cases h
  case case2 flag hf =>
    rw [group_singleton hf, List.mem_singleton] at h
    exact h ▸ hf
  case case3 flag hf value _ hi =>
    rw [group_cons_cons hf, List.mem_cons] at h
    exact h.elim (· ▸ hf) hi
  case case4 text rest ht hi =>
    rw [Bool.not_eq_true] at ht
    rw [group_cons_of_not ht, List.mem_cons] at h
    exact h.elim (· ▸ ht) hi

-- Groups that lack no value are told from their arguments.
theorem group_flatMap_words (h : ∀ a ∈ groups, a.Fits takesValue) (hv : ∀ flag, .valued flag none ∉ groups) :
    group takesValue (groups.flatMap words) = groups := by
  induction groups
  case nil => rfl
  case cons a groups hi =>
    have ⟨ha, h⟩ := List.forall_mem_cons.mp h
    replace hi := hi h fun flag hm => hv flag (List.mem_cons_of_mem a hm)
    rw [List.flatMap_cons]
    match a, ha with
    | .plain text, ha               => exact (group_cons_of_not ha _).trans (congrArg _ hi)
    | .valued flag (some value), ha => exact (group_cons_cons ha value _).trans (congrArg _ hi)
    | .valued flag none, _          => exact (hv flag List.mem_cons_self).elim

@[simp]
theorem values_append (flag : String) :
    values flag (groups ++ groups') = values flag groups ++ values flag groups' :=
  List.filterMap_append

@[simp]
theorem values_plain (flag text : String) : values flag [.plain text] = [] :=
  rfl

@[simp]
theorem values_valued (flag flag' : String) (value : Option String) :
    values flag [.valued flag' value] = if flag' = flag then value.toList else [] := by
  cases value <;> by_cases h : flag' = flag <;> simp [values, valueOf?, h]

@[simp]
theorem positionals_append : positionals (groups ++ groups') = positionals groups ++ positionals groups' :=
  List.filterMap_append

@[simp]
theorem positionals_plain (text : String) :
    positionals [.plain text] = if ['-', '-'] <+: text.toList then [] else [text] := by
  by_cases h : ['-', '-'] <+: text.toList <;> simp [positionals, positional?, h]

@[simp]
theorem positionals_valued (flag : String) (value : Option String) : positionals [.valued flag value] = [] :=
  rfl

namespace Reordered

theorem symm (h : Reordered groups groups') : Reordered groups' groups :=
  fun flag => (h flag).symm

theorem mem (h : Reordered groups groups') {a : Argument} (ha : a ∈ groups) : a ∈ groups' := by
  have hf : a ∈ groups.filter (·.flag? = a.flag?) := List.mem_filter.mpr ⟨ha, decide_eq_true rfl⟩
  rw [h] at hf
  exact (List.mem_filter.mp hf).left

theorem mem_iff (h : Reordered groups groups') (a : Argument) : a ∈ groups ↔ a ∈ groups' :=
  ⟨h.mem, h.symm.mem⟩

-- What is taken from groups with one flag does not depend on the others.
theorem filterMap_eq {α : Type} {f : Argument → Option α} (h : Reordered groups groups')
    (flag : Option String) (hf : ∀ a, a.flag? ≠ flag → f a = none) : groups.filterMap f = groups'.filterMap f := by
  have hfilter : (fun a => if decide (flag? a = flag) then f a else none) = f := by
    funext a
    split
    case isTrue     => rfl
    case isFalse hn => exact (hf a (by simpa using hn)).symm
  rw [← hfilter, ← List.filterMap_filter, ← List.filterMap_filter, h]

theorem values_eq (h : Reordered groups groups') (flag : String) :
    values flag groups = values flag groups' := by
  refine h.filterMap_eq (some flag) fun a hn => ?_
  match a, hn with
  | .plain _, _                => rfl
  | .valued _ none, _          => rfl
  | .valued flag' (some _), hn => exact if_neg fun he => hn (congrArg some he)

theorem positionals_eq (h : Reordered groups groups') : positionals groups = positionals groups' := by
  refine h.filterMap_eq none fun a hn => ?_
  match a, hn with
  | .plain text, hn =>
    rw [flag?] at hn
    rw [positional?]
    split at hn
    case isTrue ht => rw [if_pos ht]
    case isFalse   => exact (hn rfl).elim
  | .valued _ _, _  => rfl

end Reordered

end Argument

namespace Options

open Argument

-- A shared option as it can be given.
inductive IsShared : Argument → Prop
  | json : IsShared (.plain "--json")
  | config (value : String) : IsShared (.valued "--config" (some value))
  | workspace (value : String) : IsShared (.valued "--workspace" (some value))
  | includeDir (value : String) : IsShared (.valued "--include-dir" (some value))
  | maxDepth {value : String} {depth : Nat} (h : number? depthLimit value = some depth) (hd : 0 < depth) :
    IsShared (.valued "--max-depth" (some value))

-- The options that groups give: the last value of a flag counts, and each include directory.
def ofArguments (groups : List Argument) : Options where
  config      := (values "--config" groups).getLast?.map Path.ofText
  workspace   := (values "--workspace" groups).getLast?.map Path.ofText
  includeDirs := (values "--include-dir" groups).map Path.ofText
  maxDepth    := (values "--max-depth" groups).getLast?.bind (number? depthLimit)
  json        := groups.contains (.plain "--json")

-- Whether a group belongs to the shared options.
def owns : Argument → Bool
  | .plain text    => text == "--json"
  | .valued flag _ => takesValue flag

variable {o o' : Options} {a : Argument}

theorem IsShared.owns (h : IsShared a) : owns a := by
  cases h <;> rfl

-- A group is a shared option as it can be given, or does not belong to the shared options, or is refused.
theorem accept_cases (o : Options) (a : Argument) :
    (IsShared a ∧ ∃ o', o.accept a = .ok (some o')) ∨ (¬owns a ∧ o.accept a = .ok none) ∨
      (owns a ∧ ∃ e, o.accept a = .error e) := by
  match a with
  | .plain text =>
    by_cases ht : text = "--json"
    case pos => exact .inl ⟨ht ▸ .json, _, congrArg _ (if_pos ht)⟩
    case neg => exact .inr <| .inl ⟨by simpa [owns] using ht, congrArg _ (if_neg ht)⟩
  | .valued flag none =>
    by_cases hf : takesValue flag
    case pos => exact .inr <| .inr ⟨hf, _, if_pos hf⟩
    case neg => exact .inr <| .inl ⟨hf, if_neg hf⟩
  | .valued flag (some value) =>
    rw [accept, set.eq_def]
    split
    case h_1 => exact .inl ⟨.config value, _, rfl⟩
    case h_2 => exact .inl ⟨.workspace value, _, rfl⟩
    case h_3 => exact .inl ⟨.includeDir value, _, rfl⟩
    case h_4 =>
      split
      case h_1 depth hd =>
        have ⟨hn, hd⟩ := Option.filter_eq_some_iff.mp hd
        exact .inl ⟨.maxDepth hn (of_decide_eq_true hd), _, rfl⟩
      case h_2 => exact .inr <| .inr ⟨rfl, _, rfl⟩
    case h_5 h₁ h₂ h₃ h₄ =>
      exact .inr <| .inl ⟨by simpa [owns, takesValue] using ⟨h₁, h₂, h₃, h₄⟩, rfl⟩

theorem accept_of_not_owns (h : ¬owns a) (o : Options) : o.accept a = .ok none := by
  obtain ⟨hs, _⟩ | ⟨_, hn⟩ | ⟨ho, _⟩ := o.accept_cases a
  case inl     => exact (h hs.owns).elim
  case inr.inl => exact hn
  case inr.inr => exact (h ho).elim

theorem accept_ofArguments (h : IsShared a) (groups : List Argument) :
    (ofArguments groups).accept a = .ok (some (ofArguments (groups ++ [a]))) := by
  cases h
  case maxDepth value depth h hd => simp [accept, set, ofArguments, h, Option.filter, hd]
  all_goals simp [accept, set, ofArguments]

theorem ofArguments_append_of_not_owns (h : ¬owns a) (groups : List Argument) :
    ofArguments (groups ++ [a]) = ofArguments groups := by
  have hv (flag : String) (hf : takesValue flag) : values flag [a] = [] := by
    match a, h with
    | .plain text, _         => rfl
    | .valued flag' value, h =>
      have hn : flag' ≠ flag := fun he => h (he ▸ hf)
      rw [values_valued, if_neg hn]
  have hj : a ≠ .plain "--json" := fun he => h (he ▸ rfl)
  simp [ofArguments, hv, takesValue, hj.symm]

theorem ofArguments_congr {groups groups' : List Argument} (h : Reordered groups groups') :
    ofArguments groups = ofArguments groups' := by
  simp [ofArguments, h.values_eq, h.mem_iff]

end Options

end ScriptMaps
