import ScriptMaps.Json.Reader

namespace ScriptMaps.Json
open Text

-- A value all of whose natural numbers fit into 64 bits.
inductive Bounded : Json → Prop
  | null : Bounded .null
  | bool (value : Bool) : Bounded (.bool value)
  | natural {n : Nat} (h : n ≤ Token.Literal.maxSignificand) : Bounded (.number (.natural n))
  | literal (text : String) : Bounded (.number (.literal text))
  | string (text : String) : Bounded (.string text)
  | array {items : List Json} (h : ∀ item ∈ items, Bounded item) : Bounded (.array items)
  | object {fields : List (String × Json)} (h : ∀ field ∈ fields, Bounded field.2) : Bounded (.object fields)

theorem Bounded.field? {name : String} {value field : Json} (h : Bounded value)
    (hf : value.field? name = some field) : Bounded field := by
  cases h
  case object fields h =>
    have ⟨entry, he, hv⟩ := Option.map_eq_some_iff.mp hf
    have hm := List.mem_reverse.mp <| List.mem_of_find?_eq_some he
    exact hv ▸ h entry hm
  all_goals cases hf

namespace Token

def Bounded : Token → Prop
  | .scalar value => value.Bounded
  | _             => True

theorem bounded_number (l : Literal) (text : List Char) : Json.Bounded (.number (l.number text)) := by
  rw [Literal.number]
  split
  case isTrue h =>
    have hn : ofDigits l.whole ≤ Literal.maxSignificand := of_decide_eq_true (Bool.and_eq_true_iff.mp h).right
    exact .natural hn
  case isFalse => exact .literal _

theorem bounded_of_number? {cs rest : List Char} {n : JsonNumber} (h : number? cs = some (n, rest)) :
    Json.Bounded (.number n) := by
  have ⟨⟨l, cs'⟩, _, h⟩ := Option.bind_eq_some_iff.mp h
  simp only at h
  split at h <;> cases h
  exact bounded_number ..

theorem bounded_of_read? {cs rest : List Char} {token : Token} (h : read? cs = some (token, rest)) :
    token.Bounded := by
  rw [read?.eq_def] at h
  split at h
  case h_1 => cases h
  case h_8 =>
    have ⟨⟨text, cs⟩, _, ht⟩ := Option.map_eq_some_iff.mp h
    cases ht
    exact .string text
  case h_9 =>
    have ⟨_, _, ht⟩ := Option.map_eq_some_iff.mp h
    cases ht
    exact .null
  case h_10 =>
    have ⟨_, _, ht⟩ := Option.map_eq_some_iff.mp h
    cases ht
    exact .bool true
  case h_11 =>
    have ⟨_, _, ht⟩ := Option.map_eq_some_iff.mp h
    cases ht
    exact .bool false
  case h_12 =>
    have ⟨⟨n, cs⟩, hn, ht⟩ := Option.map_eq_some_iff.mp h
    cases ht
    exact bounded_of_number? hn
  all_goals
    cases h
    trivial

theorem bounded_of_allFrom? {read tokens : List Token} {fuel : Nat} {cs : List Char}
    (hr : ∀ token ∈ read, token.Bounded) (h : allFrom? read fuel cs = some tokens) :
    ∀ token ∈ tokens, token.Bounded := by
  induction fuel generalizing read cs
  case zero => cases h
  case succ fuel hi =>
    rw [allFrom?] at h
    split at h
    case h_1 =>
      cases h
      simpa using hr
    case h_2 =>
      split at h
      case h_1 => cases h
      case h_2 token _ ht => exact hi (List.forall_mem_cons.mpr ⟨bounded_of_read? ht, hr⟩) h

end Token

-- What an open array or object has so far is bounded.
def Container.Bounded : Container → Prop
  | .array items     => ∀ item ∈ items, item.Bounded
  | .object fields _ => ∀ field ∈ fields, field.2.Bounded

def Stage.Bounded : Stage → Prop
  | .beforeName fields  => ∀ field ∈ fields, field.2.Bounded
  | .afterName fields _ => ∀ field ∈ fields, field.2.Bounded
  | .afterValue value   => value.Bounded
  | _                   => True

namespace Reader

-- All that has been read is bounded.
structure Bounded (r : Reader) : Prop where
  stack : ∀ c ∈ r.stack, c.Bounded
  stage : r.stage.Bounded

variable {r r' : Reader} {token : Token}

theorem Bounded.startValue (hr : r.Bounded) (ht : token.Bounded) (h : r.startValue token = some r') :
    r'.Bounded := by
  rw [Reader.startValue.eq_def] at h
  split at h
  case h_1 value =>
    cases h
    exact ⟨hr.stack, ht⟩
  case h_2 =>
    split at h <;> cases h
    refine ⟨List.forall_mem_cons.mpr ⟨?_, hr.stack⟩, trivial⟩
    exact List.forall_mem_nil _
  case h_3 =>
    split at h <;> cases h
    exact ⟨hr.stack, trivial⟩
  case h_4 => cases h

theorem Bounded.startField (hr : r.Bounded) {fields : List (String × Json)}
    (hf : ∀ field ∈ fields, field.2.Bounded) (h : r.startField fields token = some r') : r'.Bounded := by
  rw [Reader.startField.eq_def] at h
  split at h <;> cases h
  exact ⟨hr.stack, hf⟩

theorem forall_fields_cons {name : String} {value : Json} {fields : List (String × Json)} (hv : value.Bounded)
    (hf : ∀ field ∈ fields, field.2.Bounded) : ∀ field ∈ (name, value) :: fields, field.2.Bounded :=
  List.forall_mem_cons.mpr ⟨hv, hf⟩

theorem bounded_of_endValue {value : Json} {stack : List Container} (hs : ∀ c ∈ stack, c.Bounded)
    (hv : value.Bounded) (h : endValue value stack token = some r') : r'.Bounded := by
  rw [endValue.eq_def] at h
  split at h
  case h_5 => cases h
  all_goals
    cases h
    have ⟨hc, hs⟩ := List.forall_mem_cons.mp hs
  case h_1 => exact ⟨List.forall_mem_cons.mpr ⟨List.forall_mem_cons.mpr ⟨hv, hc⟩, hs⟩, trivial⟩
  case h_2 =>
    refine ⟨hs, .array fun item hm => ?_⟩
    exact List.forall_mem_cons.mpr ⟨hv, hc⟩ item (List.mem_reverse.mp hm)
  case h_3 => exact ⟨hs, forall_fields_cons hv hc⟩
  case h_4 =>
    refine ⟨hs, .object fun field hm => ?_⟩
    exact forall_fields_cons hv hc field (List.mem_reverse.mp hm)

theorem Bounded.push (hr : r.Bounded) (ht : token.Bounded) (h : r.push token = some r') : r'.Bounded := by
  have ⟨hstack, hstage⟩ := hr
  rw [Reader.push.eq_def] at h
  split at h
  case h_1 stack _ hs =>
    cases h
    rw [hs] at hstack
    exact ⟨(List.forall_mem_cons.mp hstack).right, .array (List.forall_mem_nil _)⟩
  case h_4 =>
    cases h
    exact ⟨hstack, .object (List.forall_mem_nil _)⟩
  case h_5 => exact hr.startField (List.forall_mem_nil _) h
  case h_6 hs => exact hr.startField (by rwa [hs] at hstage) h
  case h_7 hs =>
    cases h
    rw [hs] at hstage
    exact ⟨List.forall_mem_cons.mpr ⟨hstage, hstack⟩, trivial⟩
  case h_8 => cases h
  case h_9 hs =>
    rw [hs] at hstage
    exact bounded_of_endValue hstack hstage h
  all_goals exact hr.startValue ht h

theorem Bounded.foldlM_push {tokens : List Token} (hr : r.Bounded) (ht : ∀ token ∈ tokens, token.Bounded)
    (h : tokens.foldlM Reader.push r = some r') : r'.Bounded := by
  induction tokens generalizing r
  case nil =>
    cases h
    exact hr
  case cons token tokens hi =>
    have ⟨ht, hts⟩ := List.forall_mem_cons.mp ht
    have ⟨next, hn, h⟩ := Option.bind_eq_some_iff.mp h
    exact hi (hr.push ht hn) hts h

end Reader

theorem bounded_of_ofText? {text : String} {value : Json} (h : ofText? text = some value) :
    value.Bounded := by
  have ⟨tokens, htokens, h⟩ := Option.bind_eq_some_iff.mp h
  have ⟨r, hr, h⟩ := Option.bind_eq_some_iff.mp h
  have hs : ({} : Reader).Bounded := ⟨List.forall_mem_nil _, trivial⟩
  have hb := hs.foldlM_push (Token.bounded_of_allFrom? (List.forall_mem_nil _) htokens) hr
  rw [Reader.result?.eq_def] at h
  split at h <;> cases h
  exact hb.stage

end ScriptMaps.Json
