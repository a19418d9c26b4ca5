import Mathlib.Data.List.TakeWhile
import ScriptMaps.Proofs.Script.Literals
import ScriptMaps.Proofs.Script.Trail
import ScriptMaps.Proofs.Script.Visibility
import ScriptMaps.Proofs.Text.Separated

namespace ScriptMaps
open Text

namespace Call

-- A place that passes a Map: the text of the line before the parenthesis, the arguments before the Map
-- with their commas, and the argument itself.
structure Site where
  before   : List Char
  passed   : List Char
  argument : List Char
  deriving DecidableEq

-- The calls of a code text, each with the text before its parenthesis and its argument text.
def openingsFrom (before : List Char) : List Char → List (List Char × List Char)
  | []      => []
  | c :: cs =>
    match opened? (trail before) c cs with
    | some (_, arguments) => (before, arguments) :: openingsFrom (before ++ [c]) cs
    | none                => openingsFrom (before ++ [c]) cs

namespace Site

def function (site : Site) : List Char :=
  (trail site.before).word.reverse

def call (site : Site) (number : Nat) : Call where
  function := String.ofList site.function
  position := site.passed.count ','
  line     := number

-- The literal that the parenthesis is in.
def quote (site : Site) : Option Char :=
  quoteAfter none site.before

-- The commas from the parenthesis up to the argument that are outside literals, and those inside.
def commasOutside (site : Site) : Nat :=
  (outsideLiterals site.quote ('(' :: site.passed)).count ','

def commasInside (site : Site) : Nat :=
  (insideLiterals site.quote ('(' :: site.passed)).count ','

-- The Map is a whole argument of an innermost pair of parentheses that a word stands before.
structure Passes (map code : List Char) (site : Site) : Prop where
  called    : site.function ≠ []
  shape     : ∃ after, code = site.before ++ '(' :: (site.passed ++ site.argument ++ after) ∧
    (after.head? = some ',' ∨ after.head? = some ')')
  innermost : ∀ c ∈ site.passed ++ site.argument, c ≠ '(' ∧ c ≠ ')'
  separated : site.passed = [] ∨ site.passed.getLast? = some ','
  whole     : ',' ∉ site.argument
  named     : sameAscii (trim site.argument) map

end Site

def sitesOf (map code : List Char) : List Site :=
  (openingsFrom [] code).flatMap fun (before, arguments) =>
    ((piecesAfter ',' [] <| arguments.splitOn ',').filter fun x => sameAscii (trim x.2) map).map fun
      (passed, argument) => ⟨before, passed, argument⟩

def sitesOn (map : List Char) (line : CodeLine) : List Site :=
  if isComment line.text || (Function.header? line.text).isSome then []
  else sitesOf map (beforeComment none line.text)

variable {map code : List Char} {line : CodeLine} {site : Site}

theorem groupsFrom_trail (before cs : List Char) :
    groupsFrom (trail before) cs =
      (openingsFrom before cs).map fun (before, arguments) => ((trail before).word.reverse, arguments) := by
  induction cs generalizing before
  case nil => rfl
  case cons c cs hi =>
    have hp : (trail before).push c = trail (before ++ [c]) := by simp [trail]
    rw [groupsFrom, openingsFrom, hp, hi]
    cases ho : opened? (trail before) c cs
    case none   => rfl
    case some o =>
      have hw := (opened?_eq_some ho).right.right.left
      simp [← hw]

theorem of_mem_openingsFrom {before code opened arguments : List Char}
    (h : (opened, arguments) ∈ openingsFrom before code) :
    (trail opened).word ≠ [] ∧ (∀ c ∈ arguments, c ≠ '(' ∧ c ≠ ')') ∧
      ∃ after, before ++ code = opened ++ '(' :: (arguments ++ ')' :: after) := by
  induction code generalizing before
  case nil => simp [openingsFrom] at h
  case cons c cs hi =>
    have hnext (h : (opened, arguments) ∈ openingsFrom (before ++ [c]) cs) := by simpa using hi h
    rw [openingsFrom] at h
    cases ho : opened? (trail before) c cs <;> simp only [ho] at h
    case none   => exact hnext h
    case some o =>
      cases h
      case tail h => exact hnext h
      case head   =>
        have ⟨hc, hw, _, ha⟩ := opened?_eq_some ho
        have ⟨hi, after, hs⟩ := arguments?_eq_some ha
        exact ⟨hw, hi, after, by rw [hc, hs]⟩

theorem positionsFrom_eq (map passed : List Char) {pieces : List (List Char)}
    (hp : ∀ piece ∈ pieces, ',' ∉ piece) :
    positionsFrom map (passed.count ',') pieces =
      ((piecesAfter ',' passed pieces).filter fun x => sameAscii (trim x.2) map).map
        (·.1.count ',') := by
  induction pieces generalizing passed
  case nil => rfl
  case cons piece pieces hi =>
    have ⟨hpiece, hp⟩ := List.forall_mem_cons.mp hp
    have hc : (passed ++ piece ++ [',']).count ',' = passed.count ',' + 1 := by
      simp [List.count_eq_zero_of_not_mem hpiece]
    rw [positionsFrom, piecesAfter, ← hc, hi _ hp, List.filter_cons]
    split <;> simp

theorem ofLine_eq_sitesOn (map : List Char) (line : CodeLine) :
    ofLine map line = (sitesOn map line).map (·.call line.number) := by
  rw [ofLine, sitesOn]
  split
  case isTrue  => rfl
  case isFalse =>
    have hg := groupsFrom_trail [] (beforeComment none line.text)
    rw [groups_eq, hg, sitesOf, List.flatMap_map, List.map_flatMap]
    refine List.flatMap_congr ?_
    intro (before, arguments) _
    have hp : positions map arguments = _ :=
      positionsFrom_eq map [] fun _ => separator_notMem_of_mem_splitOn
    simp [hp, Site.call, Site.function]

theorem passes_of_mem_sitesOf (h : site ∈ sitesOf map code) : site.Passes map code := by
  have ⟨(before, arguments), ho, hs⟩ := List.mem_flatMap.mp h
  have ⟨(passed, argument), hp, hs⟩ := List.mem_map.mp hs
  have ⟨hp, hn⟩ := List.mem_filter.mp hp
  have ⟨hw, hi, rest, hc⟩ := of_mem_openingsFrom ho
  have ⟨hm, hl, after, ha, hh⟩ := of_mem_piecesAfter hp
  rw [List.intercalate_splitOn, List.nil_append] at ha
  subst hs ha
  exact {
    called    := by simpa [Site.function] using hw
    shape     := ⟨after ++ ')' :: rest, by simpa using hc, by cases hh <;> simp [*]⟩
    innermost := fun c hc => hi c <| List.mem_append_left _ hc
    separated := hl
    whole     := separator_notMem_of_mem_splitOn hm
    named     := hn
  }

namespace Site

-- The position counts the commas inside literals as well.
theorem position_call (site : Site) (number : Nat) :
    (site.call number).position = site.commasOutside + site.commasInside := by
  rw [commasOutside, commasInside, count_literals]
  simp [call]

-- What a call is meant to tell of its site: the parenthesis is in no literal, and the position is the
-- number of commas in none.
structure CountedOutside (site : Site) (call : Call) : Prop where
  quote    : site.quote = none
  position : call.position = site.commasOutside

theorem countedOutside_iff (site : Site) (number : Nat) :
    site.CountedOutside (site.call number) ↔ site.quote = none ∧ site.commasInside = 0 := by
  have hp := site.position_call number
  constructor
  case mp  => exact fun h => ⟨h.quote, by have := h.position; omega⟩
  case mpr => exact fun h => ⟨h.left, by omega⟩

theorem Passes.append (h : site.Passes map code) (rest : List Char) :
    site.Passes map (code ++ rest) := by
  have ⟨after, hs, hh⟩ := h.shape
  have hn : after ≠ [] := by rintro rfl; simp at hh
  exact { h with shape := ⟨after ++ rest, by simp [hs], by rwa [List.head?_append_of_ne_nil _ hn]⟩ }

theorem Passes.countedOutside
    (h : site.Passes map code) (ho : '(' ∉ insideLiterals none code)
    (hc : ',' ∉ insideLiterals none code) (number : Nat) :
    site.CountedOutside (site.call number) := by
  have ⟨after, hs, _⟩ := h.shape
  subst hs
  refine (site.countedOutside_iff number).mpr ⟨quoteAfter_of_notMem_insideLiterals ho, ?_⟩
  rw [insideLiterals_append, List.append_assoc, ← List.cons_append, insideLiterals_append] at hc
  exact List.count_eq_zero_of_not_mem fun hm =>
    hc <| List.mem_append_right _ <| List.mem_append_left _ hm

end Site

theorem mem_sitesOf_of_mem_sitesOn (h : site ∈ sitesOn map line) :
    site ∈ sitesOf map (beforeComment none line.text) := by
  rw [sitesOn] at h
  split at h
  case isTrue  => cases h
  case isFalse => exact h

-- A site is part of its line, up to the end of the argument before every comment.
theorem passes_of_mem_sitesOn (h : site ∈ sitesOn map line) :
    site.Passes map line.text ∧
      ';' ∉ outsideLiterals none (site.before ++ '(' :: (site.passed ++ site.argument)) := by
  have hp := passes_of_mem_sitesOf <| mem_sitesOf_of_mem_sitesOn h
  have ⟨comment, hl, hc, _⟩ := exists_comment none line.text
  have ⟨after, hs, _⟩ := hp.shape
  refine ⟨hl ▸ hp.append comment, ?_⟩
  rw [hs, ← List.cons_append, ← List.append_assoc, outsideLiterals_append] at hc
  exact fun hm => hc <| List.mem_append_left _ hm

end Call

namespace Script

theorem calls_eq_sites (s : Script) (map : String) :
    s.calls map =
      s.lines.flatMap fun line => (Call.sitesOn map.toList line).map (·.call line.number) :=
  List.flatMap_congr fun line _ => Call.ofLine_eq_sitesOn map.toList line

theorem functionKeys_eq_sites (s : Script) (map : String) (point : QueryPoint) :
    (s.keysAt map point).functionKeys =
      (s.lines.filter ((s.visibility map point).contains ·.number)).flatMap fun line =>
        (Call.sitesOn map.toList line).flatMap fun site => s.keysOfCall (site.call line.number) := by
  simp only [keysAt, calls_eq_sites]
  induction s.lines
  case nil => rfl
  case cons line lines hi =>
    -- The calls of a line are visible together, for visibility goes by lines.
    have hl : ∀ call ∈ (Call.sitesOn map.toList line).map (·.call line.number),
        call.line = line.number := by
      simp [Call.Site.call]
    rw [List.flatMap_cons, List.filter_append, List.flatMap_append, hi, List.filter_cons]
    split
    case isTrue hv  =>
      rw [List.filter_eq_self.mpr fun call hc => hl call hc ▸ hv, List.flatMap_map, List.flatMap_cons]
    case isFalse hv =>
      rw [List.filter_eq_nil_iff.mpr fun call hc => hl call hc ▸ hv, List.flatMap_nil, List.nil_append]

-- A call counts every comma between the parenthesis and the Map, those inside literals too, and the
-- parenthesis itself may be inside one. The parameter that gets the keys is the one at that count.
theorem calls_countedOutside_iff (s : Script) (map : String) :
    (s.calls map =
      s.lines.flatMap fun line => (Call.sitesOn map.toList line).map (·.call line.number)) ∧
    (∀ line, ∀ site ∈ Call.sitesOn map.toList line,
      site.Passes map.toList line.text ∧
      ';' ∉ outsideLiterals none (site.before ++ '(' :: (site.passed ++ site.argument)) ∧
      (site.CountedOutside (site.call line.number) ↔ site.quote = none ∧ site.commasInside = 0) ∧
      ('(' ∉ insideLiterals none (beforeComment none line.text) →
        ',' ∉ insideLiterals none (beforeComment none line.text) →
        site.CountedOutside (site.call line.number))) ∧
    ∀ point,
      (s.keysAt map point).functionKeys =
        (s.lines.filter ((s.visibility map point).contains ·.number)).flatMap fun line =>
          (Call.sitesOn map.toList line).flatMap fun site =>
            (s.functions.filter (sameName ·.name (String.ofList site.function))).flatMap fun f =>
              f.parameters[site.commasOutside + site.commasInside]?.toList.flatMap fun p =>
                ((s.assignments p.name).filter fun a => f.line < a.line ∧ a.line ≤ f.endLine).map fun a =>
                  { key            := a.key
                    function       := f.name
                    parameter      := p.name
                    callLine       := line.number
                    definitionLine := f.line
                    byRef          := p.byRef } := by
  refine ⟨s.calls_eq_sites map, ?sites, ?keys⟩
  case sites =>
    intro line site hs
    have ⟨hp, hc⟩ := Call.passes_of_mem_sitesOn hs
    refine ⟨hp, hc, site.countedOutside_iff line.number, ?_⟩
    intro ho hc
    exact (Call.passes_of_mem_sitesOf <| Call.mem_sitesOf_of_mem_sitesOn hs).countedOutside ho hc _
  case keys =>
    intro point
    rw [functionKeys_eq_sites]
    refine List.flatMap_congr fun line _ => List.flatMap_congr fun site _ => ?_
    rw [keysOfCall_eq, site.position_call]
    rfl

-- The literal before the Map holds no comma, and the comment is not searched.
theorem countedOutside_plain_literal :
    let s := ofText "Func F($a, $b)\n$b.x = 1\nEndFunc\nF(\"p\", $m) ; F(\"(,\", $m)\n"
    let site : Call.Site := ⟨"F".toList, "\"p\",".toList, " $m".toList⟩
    s.calls "$m" = [site.call 3] ∧ site.CountedOutside (site.call 3) ∧
      (s.keysAt "$m" .everywhere).functionKeys = [⟨"x", "F", "$b", 3, 0, false⟩] := by
  intro s site
  have ⟨hcalls, hsites, hkeys⟩ := s.calls_countedOutside_iff "$m"
  have ⟨_, _, _, hcounted⟩ := hsites ⟨3, "F(\"p\", $m) ; F(\"(,\", $m)".toList⟩ site (by decide +kernel)
  refine ⟨hcalls ▸ by decide +kernel, hcounted (by decide +kernel) (by decide +kernel), ?_⟩
  rw [hkeys]
  decide +kernel

-- `F` gets the Map as its second argument, but the comma of the first one is counted and the third
-- parameter is taken for it. The second call is the text of a literal.
theorem literal_commas_counted :
    let s := ofText <| "Func F($a, $b, $c)\n$a.first = 1\n$b.second = 1\n$c.third = 1\nEndFunc\n" ++
      "F(\"p,q\", $m)\nG(\"F($m)\")\n"
    let sites := s.lines.flatMap (Call.sitesOn "$m".toList)
    s.calls "$m" = [⟨"F", 2, 5⟩, ⟨"F", 0, 6⟩] ∧
    sites = [⟨"F".toList, "\"p,q\",".toList, " $m".toList⟩, ⟨"G(\"F".toList, [], "$m".toList⟩] ∧
    sites.map (fun site => (site.quote, site.commasOutside)) = [(none, 1), (some '"', 0)] ∧
    (∀ line ∈ s.lines, ∀ site ∈ Call.sitesOn "$m".toList line,
      ¬site.CountedOutside (site.call line.number)) ∧
    (s.keysAt "$m" .everywhere).functionKeys =
      [⟨"third", "F", "$c", 5, 0, false⟩, ⟨"first", "F", "$a", 6, 0, false⟩] := by
  intro s sites
  have hwrong : ∀ line ∈ s.lines, ∀ site ∈ Call.sitesOn "$m".toList line,
      ¬(site.quote = none ∧ (site.call line.number).position = site.commasOutside) := by
    decide +kernel
  refine ⟨by decide +kernel, by decide +kernel, by decide +kernel, ?_, by decide +kernel⟩
  exact fun line hl site hs h => hwrong line hl site hs ⟨h.quote, h.position⟩

end Script

end ScriptMaps
