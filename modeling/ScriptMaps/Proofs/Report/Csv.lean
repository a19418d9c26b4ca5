import Mathlib.Data.List.Forall2
import ScriptMaps.Proofs.Text.Plain
import ScriptMaps.Report.Phases

namespace ScriptMaps
open Text

namespace Csv

-- A character that a field has only between quotes.
def isReserved (c : Char) : Bool :=
  [',', '"', '\r', '\n'].contains c

-- Where in a field a reader is: in its bare text, between its quotes, or after a quote, which has closed
-- the field unless another quote follows.
inductive Place
  | bare
  | quoted
  | closed
  deriving DecidableEq

-- The rows that have been read, the fields of the row under way and the text of the field under way.
structure Reader where
  rows  : List (List String) := []
  row   : List String := []
  field : List Char := []
  place : Place := .bare

namespace Reader

def push (r : Reader) (c : Char) : Reader :=
  { r with field := r.field ++ [c] }

def endField (r : Reader) : Reader :=
  { r with row := r.row ++ [String.ofList r.field], field := [], place := .bare }

def endRow (r : Reader) : Reader where
  rows := r.rows ++ [r.endField.row]

-- A comma ends a field and a line feed ends a row.
def separate? (r : Reader) (c : Char) : Option Reader :=
  if c = ',' then some r.endField
  else if c = '\n' then some r.endRow
  else none

-- The reader after one more character, unless the character is out of place.
def next (r : Reader) (c : Char) : Option Reader :=
  match r.place with
  | .quoted => some (if c = '"' then { r with place := .closed } else r.push c)
  | .closed => if c = '"' then some { r.push c with place := .quoted } else r.separate? c
  | .bare   =>
    if c = '"' ∧ r.field = [] then some { r with place := .quoted }
    else if isReserved c then r.separate? c
    else some (r.push c)

-- The rows at the end of a text, of which the last one need not be ended.
def finish (r : Reader) : Option (List (List String)) :=
  if r.place = .quoted then none
  else if r.place = .bare ∧ r.row = [] ∧ r.field = [] then some r.rows
  else some r.endRow.rows

end Reader

-- The rows of a text, if it is well formed.
def read (text : String) : Option (List (List String)) :=
  (text.toList.foldlM Reader.next {}).bind Reader.finish

-- A field as it stands in a text.
inductive Written : List Char → String → Prop
  | bare {field : String} (h : ∀ c ∈ field.toList, ¬isReserved c) : Written field.toList field
  | quoted (field : String) : Written (PhaseResult.quoted field).toList field

variable {rows : List (List String)} {row : List String} {field cs : List Char} {text : String}

namespace Reader

theorem foldlM_next_bare (h : ∀ c ∈ cs, ¬isReserved c) (field : List Char) :
    cs.foldlM next ⟨rows, row, field, .bare⟩ = some ⟨rows, row, field ++ cs, .bare⟩ := by
  induction cs generalizing field
  case nil => simp
  case cons c cs hi =>
    have ⟨hc, h⟩ := List.forall_mem_cons.mp h
    have hq : c ≠ '"' := by
      rintro rfl
      exact hc (by decide)
    simp [next, push, hq, hc, hi h]

-- A quote that is doubled leaves the reader between the quotes.
theorem foldlM_next_quoted (cs field : List Char) :
    (cs.flatMap fun c => if c = '"' then ['"', '"'] else [c]).foldlM next ⟨rows, row, field, .quoted⟩ =
      some ⟨rows, row, field ++ cs, .quoted⟩ := by
  induction cs generalizing field
  case nil => simp
  case cons c cs hi =>
    rw [List.flatMap_cons, List.foldlM_append]
    by_cases hc : c = '"' <;> simp [next, push, hc, hi]

theorem next_comma {place : Place} (h : place ≠ .quoted) :
    next ⟨rows, row, field, place⟩ ',' = some ⟨rows, row ++ [String.ofList field], [], .bare⟩ := by
  cases place
  case quoted => exact absurd rfl h
  all_goals rfl

theorem next_lineFeed {place : Place} (h : place ≠ .quoted) :
    next ⟨rows, row, field, place⟩ '\n' = some ⟨rows ++ [row ++ [String.ofList field]], [], [], .bare⟩ := by
  cases place
  case quoted => exact absurd rfl h
  all_goals rfl

end Reader

open Reader

namespace Written

theorem foldlM_next (h : Written cs text) (rows : List (List String)) (row : List String) :
    ∃ place, place ≠ .quoted ∧
      cs.foldlM next ⟨rows, row, [], .bare⟩ = some ⟨rows, row, text.toList, place⟩ := by
  cases h
  case bare h => exact ⟨.bare, by decide, foldlM_next_bare h []⟩
  case quoted =>
    refine ⟨.closed, by decide, ?_⟩
    have hopen : next ⟨rows, row, [], .bare⟩ '"' = some ⟨rows, row, [], .quoted⟩ := rfl
    have hclose (field : List Char) :
        next ⟨rows, row, field, .quoted⟩ '"' = some ⟨rows, row, field, .closed⟩ := rfl
    simp [PhaseResult.quoted, List.foldlM_append, hopen, foldlM_next_quoted, hclose]

theorem foldlM_comma (h : Written cs text) (rest : List Char) :
    (cs ++ ',' :: rest).foldlM next ⟨rows, row, [], .bare⟩ =
      rest.foldlM next ⟨rows, row ++ [text], [], .bare⟩ := by
  obtain ⟨place, hp, hf⟩ := h.foldlM_next rows row
  simp [List.foldlM_append, hf, next_comma hp]

theorem foldlM_lineFeed (h : Written cs text) (rest : List Char) :
    (cs ++ '\n' :: rest).foldlM next ⟨rows, row, [], .bare⟩ =
      rest.foldlM next ⟨rows ++ [row ++ [text]], [], [], .bare⟩ := by
  obtain ⟨place, hp, hf⟩ := h.foldlM_next rows row
  simp [List.foldlM_append, hf, next_lineFeed hp]

end Written

-- A row as it stands in a text, with its end.
def WrittenRow (cs : List Char) (row : List String) : Prop :=
  ∃ fields, fields ≠ [] ∧ List.Forall₂ Written fields row ∧ cs = [','].intercalate fields ++ ['\n']

theorem foldlM_intercalate {fields : List (List Char)} {texts : List String}
    (h : List.Forall₂ Written fields texts) (hne : fields ≠ []) (row : List String) (rest : List Char) :
    ([','].intercalate fields ++ '\n' :: rest).foldlM next ⟨rows, row, [], .bare⟩ =
      rest.foldlM next ⟨rows ++ [row ++ texts], [], [], .bare⟩ := by
  induction h generalizing row
  case nil => exact absurd rfl hne
  case cons cs text fields texts hw h hi =>
    cases h
    case nil => simpa using hw.foldlM_lineFeed rest
    case cons =>
      have hrest := hi (by simp) (row ++ [text])
      simpa [List.intercalate_cons_of_ne_nil, hw.foldlM_comma] using hrest

theorem foldlM_writtenRows {texts : List (List Char)} (h : List.Forall₂ WrittenRow texts rows)
    (done : List (List String)) :
    texts.flatten.foldlM next ⟨done, [], [], .bare⟩ = some ⟨done ++ rows, [], [], .bare⟩ := by
  induction h generalizing done
  case nil => simp
  case cons hw _ hi =>
    obtain ⟨fields, hne, hf, rfl⟩ := hw
    rw [List.flatten_cons, List.append_assoc, List.singleton_append, foldlM_intercalate hf hne, hi]
    simp

-- A heading and the rows that are written below it are read back.
theorem read_eq_some {heading : String} {texts : List String} (hh : WrittenRow heading.toList row)
    (ht : List.Forall₂ WrittenRow (texts.map String.toList) rows) :
    read (heading ++ String.join texts) = some (row :: rows) := by
  have htext : (heading ++ String.join texts).toList =
      (heading.toList :: texts.map String.toList).flatten := by
    simp [String.toList_join, List.flatMap_def]
  rw [read, htext, foldlM_writtenRows (.cons hh ht)]
  rfl

theorem not_isReserved_of_numeral {c : Char} (h : c.isDigit ∨ c = '.') : ¬isReserved c := by
  intro hc
  obtain rfl | rfl | rfl | rfl : c = ',' ∨ c = '"' ∨ c = '\r' ∨ c = '\n' := by simpa [isReserved] using hc
  all_goals exact absurd h (by decide)

end Csv

-- A number with places is made of digits and a point.
theorem Numeric.Fraction.numeral_of_mem_fixed {a : Fraction} {places : Nat} {c : Char}
    (h : c ∈ (a.fixed places).toList) : c.isDigit ∨ c = '.' := by
  simp only [fixed, String.toList_append, List.mem_append, toList_toString, String.toList_ofList] at h
  obtain ((h | h) | h) | h := h
  case inl.inl.inl => exact .inl (isDigit_of_mem_digits h)
  case inl.inl.inr => exact .inr (by simpa using h)
  case inl.inr     => exact .inl (List.eq_of_mem_replicate h ▸ by decide)
  case inr         => exact .inl (isDigit_of_mem_digits h)

namespace PhaseResult

-- The fields of a result's row.
def fields (r : PhaseResult) : List String :=
  [r.name, r.duration.milliseconds, (r.peakMemory.map toString).getD "", r.detail]

theorem writtenRow_csvRow {r : PhaseResult} (hn : ∀ c ∈ r.name.toList, ¬Csv.isReserved c) :
    Csv.WrittenRow r.csvRow.toList r.fields := by
  have hd : ∀ c ∈ r.duration.milliseconds.toList, ¬Csv.isReserved c :=
    fun _ hc => Csv.not_isReserved_of_numeral (Numeric.Fraction.numeral_of_mem_fixed hc)
  have hm : ∀ c ∈ ((r.peakMemory.map toString).getD "").toList, ¬Csv.isReserved c := by
    cases r.peakMemory
    case none => simp
    case some n =>
      intro c hc
      rw [Option.map_some, Option.getD_some, toList_toString] at hc
      exact Csv.not_isReserved_of_numeral (.inl (isDigit_of_mem_digits hc))
  refine ⟨_, ?_, .cons (.bare hn) <| .cons (.bare hd) <| .cons (.bare hm) <| .cons (.quoted _) .nil, ?_⟩
  case refine_1 => simp
  case refine_2 => simp [csvRow]

-- A report is read back as its headings and one row for each result. The texts of the results may hold
-- anything, also what looks like the end of a row.
theorem read_csv (results : List PhaseResult)
    (hn : ∀ r ∈ results, ∀ c ∈ r.name.toList, c ≠ ',' ∧ c ≠ '"' ∧ c ≠ '\r' ∧ c ≠ '\n') :
    Csv.read (csv results) =
      some (["phase", "duration_ms", "peak_rss_bytes", "detail"] :: results.map fields) := by
  have hheader : Csv.WrittenRow "phase,duration_ms,peak_rss_bytes,detail\n".toList
      ["phase", "duration_ms", "peak_rss_bytes", "detail"] := by
    refine ⟨_, ?_, .cons (.bare ?_) <| .cons (.bare ?_) <| .cons (.bare ?_) <| .cons (.bare ?_) .nil, ?_⟩
    all_goals simp [Csv.isReserved]
  have hrows : List.Forall₂ Csv.WrittenRow ((results.map csvRow).map String.toList) (results.map fields) := by
    rw [List.forall₂_map_left_iff, List.forall₂_map_left_iff, List.forall₂_map_right_iff, List.forall₂_same]
    intro r hr
    refine writtenRow_csvRow fun c hc => ?_
    simpa [Csv.isReserved] using hn r hr c hc
  exact Csv.read_eq_some hheader hrows

-- The texts end in quotes and hold separators, and one name and one amount of memory are missing.
theorem read_csv_quotes :
    let results : List PhaseResult :=
      [⟨"scan", ⟨10000000⟩, none, "say \"hi\""⟩, ⟨"", ⟨0⟩, some 3145728, "\",\r\nkeys,1.000,,\""⟩]
    Csv.read (csv results) =
      some [["phase", "duration_ms", "peak_rss_bytes", "detail"], ["scan", "10.000", "", "say \"hi\""],
        ["", "0.000", "3145728", "\",\r\nkeys,1.000,,\""]] := by
  intro results
  rw [read_csv results (by simp [results])]
  decide +kernel

end PhaseResult

end ScriptMaps
