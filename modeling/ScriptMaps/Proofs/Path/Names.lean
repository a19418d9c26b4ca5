import Mathlib.Data.List.Basic
import ScriptMaps.Proofs.Path.Join

namespace ScriptMaps

-- A text that names an entry of a directory.
def IsName (name : String) : Prop :=
  (Component.name name).Plain

namespace IsName

variable {name : String}

theorem of_head {c : Char} {cs : List Char} (h : name.toList = c :: cs) (hc : c ≠ '.')
    (hs : '/' ∉ name.toList) : IsName name where
  separator_notMem := hs
  ofSegment?_text  := by
    have hsegment : Component.ofSegment? (c :: cs) = some (.name (String.ofList (c :: cs))) := by
      unfold Component.ofSegment?
      split
      case h_1 he => cases he
      case h_2 he => exact absurd (List.cons.inj he).left hc
      case h_3 he => exact absurd (List.cons.inj he).left hc
      case h_4    => rfl
    rw [Component.text, h, hsegment, ← h, String.ofList_toList]
  ne_up            := by simp

theorem ne_nil (h : IsName name) : name.toList ≠ [] := by
  intro hn
  have hs := h.ofSegment?_text
  simp [Component.text, hn, Component.ofSegment?] at hs

theorem not_isIdle (h : IsName name) : ¬Path.isIdle name.toList := by
  intro hi
  have hs := h.ofSegment?_text
  obtain hn | hd : name.toList = [] ∨ name.toList = ['.'] := by simpa [Path.isIdle] using hi
  case inl => exact h.ne_nil hn
  case inr => simp [Component.text, hd, Component.ofSegment?] at hs

theorem not_isAbsolute (h : IsName name) : ¬(Path.ofText name).isAbsolute := by
  rw [Path.isAbsolute_iff]
  rintro ⟨rest, hr⟩
  have hm : '/' ∈ name.toList := hr ▸ .head _
  exact h.separator_notMem hm

theorem components_ofText (h : IsName name) : (Path.ofText name).components = [.name name] := by
  have hn : Path.Normal [.name name] := ⟨[], _, .inl rfl, List.forall_mem_singleton.mpr h, rfl⟩
  have ht : Path.ofComponents [.name name] = .ofText name := by simp [Path.ofComponents, Component.text]
  rw [← ht, hn.components_ofComponents (by simp)]

theorem splitOn_eq (h : IsName name) : name.toList.splitOn '/' = [name.toList] :=
  List.splitOn_eq_singleton h.separator_notMem

theorem ofSegments_eq (h : IsName name) : Component.ofSegments name.toList = [.name name] := by
  have hs : Component.ofSegment? name.toList = some (.name name) := h.ofSegment?_text
  simp [Component.ofSegments, h.splitOn_eq, hs]

end IsName

namespace Path

-- The absolute path with the given names.
def ofNames (names : List String) : Path :=
  ofComponents (.root :: names.map .name)

variable {names : List String} {name : String} {d : Path}

theorem forall_plain (h : ∀ n ∈ names, IsName n) : ∀ c ∈ names.map Component.name, c.Plain :=
  List.forall_mem_map.mpr h

theorem toList_ofNames (names : List String) :
    (ofNames names).text.toList = '/' :: ['/'].intercalate (names.map String.toList) := by
  simp [ofNames, ofComponents, Function.comp_def, Component.text]

theorem cons_intercalate {a : List Char} {as : List (List Char)} :
    '/' :: ['/'].intercalate (a :: as) = (a :: as).flatMap ('/' :: ·) := by
  induction as generalizing a
  case nil => simp
  case cons b as hi => rw [List.intercalate_cons_of_ne_nil (by simp), List.flatMap_cons, ← hi]; simp

theorem toList_ofNames_append (names : List String) (name : String) :
    (ofNames (names ++ [name])).text.toList =
      (names ++ [name]).flatMap fun n => '/' :: n.toList := by
  have hne : (names ++ [name]).map String.toList ≠ [] := by simp
  obtain ⟨a, as, ha⟩ := List.exists_cons_of_ne_nil hne
  rw [toList_ofNames, ha, cons_intercalate, ← ha, List.flatMap_map]

theorem components_ofNames (h : ∀ n ∈ names, IsName n) :
    (ofNames names).components = .root :: names.map .name :=
  Normal.components_ofComponents ⟨[.root], _, .inr rfl, forall_plain h, rfl⟩ (by simp)

theorem isNormal_ofNames (h : ∀ n ∈ names, IsName n) : (ofNames names).IsNormal := by
  have hn : Normal (.root :: names.map .name) := ⟨[.root], _, .inr rfl, forall_plain h, rfl⟩
  rw [IsNormal, normalize?, components_ofNames h, hn.settled_eq]
  rfl

theorem isAbsolute_ofNames (names : List String) : (ofNames names).isAbsolute := by
  simp [isAbsolute_iff, toList_ofNames]

theorem ofNames_inj {names' : List String} (h : ∀ n ∈ names, IsName n) (h' : ∀ n ∈ names', IsName n) :
    ofNames names = ofNames names' ↔ names = names' := by
  refine ⟨fun he => ?_, fun he => he ▸ rfl⟩
  have hc := congrArg components he
  rw [components_ofNames h, components_ofNames h', List.cons_inj_right] at hc
  exact (List.map_inj_right fun _ _ => Component.name.inj).mp hc

theorem IsNormal.ofComponents_eq (h : d.IsNormal) : ofComponents d.components = d := by
  have hs := h.settled_eq
  rw [IsNormal, normalize?, hs] at h
  split at h <;> simp_all

theorem exists_names (ha : d.isAbsolute) (hd : d.IsNormal) :
    ∃ names, (∀ n ∈ names, IsName n) ∧ d = ofNames names := by
  have ⟨rest, hr⟩ := isAbsolute_iff.mp ha
  have ⟨plain, hp, hs⟩ := settled_ofText d.text.toList
  have hb : base d.text.toList = [.root] := by simp [hr, base, Component.ofFront?, settle]
  rw [← d.components_eq, hd.settled_eq, hb] at hs
  have hname : ∀ c ∈ plain, .name c.text = c := by
    intro c hc
    obtain ⟨text, rfl⟩ := (hp c hc).eq_name
    rfl
  refine ⟨plain.map Component.text, ?names, ?path⟩
  case names => exact List.forall_mem_map.mpr fun c hc => (congrArg _ (hname c hc)).mpr (hp c hc)
  case path  =>
    have hplain : (plain.map Component.text).map .name = plain :=
      (List.map_map ..).trans <| (List.map_congr_left hname).trans plain.map_id
    rw [ofNames, hplain, ← hd.ofComponents_eq, hs]
    rfl

theorem join_ofNames (h : ∀ n ∈ names, IsName n) (hn : IsName name) :
    (ofNames names).join (.ofText name) = ofNames (names ++ [name]) := by
  refine Path.ext <| String.toList_inj.mp ?_
  rw [toList_ofNames_append, join, if_neg hn.not_isAbsolute]
  obtain rfl | ⟨init, last, rfl⟩ := names.eq_nil_or_concat'
  case inl => simp [ofNames, ofComponents]
  case inr =>
    have hlast : IsName last := h last (by simp)
    have hend : ¬(ofNames (init ++ [last])).text.toList.getLast?.all (· == '/') := by
      obtain ⟨front, c, hc⟩ := (List.eq_nil_or_concat' last.toList).resolve_left hlast.ne_nil
      have hm : c ≠ '/' := by
        rintro rfl
        exact hlast.separator_notMem (by simp [Component.text, hc])
      simp [toList_ofNames_append, hc, List.getLast?_cons, hm]
    rw [if_neg hend, List.flatMap_append, ← toList_ofNames_append]
    simp

theorem dropWhile_isIdle (h : ∀ n ∈ names, IsName n) :
    (names.map String.toList).dropWhile isIdle = names.map String.toList := by
  cases names
  case nil  => rfl
  case cons => rw [List.map_cons, List.dropWhile_cons_of_neg (h _ (.head _)).not_isIdle]

theorem parent?_ofNames (h : ∀ n ∈ names, IsName n) (hn : IsName name) :
    (ofNames (names ++ [name])).parent? = some (ofNames names) := by
  have hall : ∀ n ∈ names ++ [name], IsName n := List.forall_mem_append.mpr ⟨h, by simpa using hn⟩
  have hsplit : (['/'].intercalate ((names ++ [name]).map String.toList)).splitOn '/' =
      (names ++ [name]).map String.toList := by
    simpa [Function.comp_def, Component.text] using splitOn_intercalate_plain (forall_plain hall) (by simp)
  have hreverse : ((names ++ [name]).map String.toList).reverse =
      name.toList :: names.reverse.map String.toList := by simp
  have hlast : ¬isIdle name.toList := hn.not_isIdle
  have hrest := dropWhile_isIdle fun n hm => h n (List.mem_reverse.mp hm)
  simp only [parent?, toList_ofNames, front, hsplit, hreverse, List.dropWhile_cons_of_neg hlast, hrest]
  refine congrArg some <| Path.ext <| String.toList_inj.mp ?_
  simp [toList_ofNames]

theorem directory_ofNames (h : ∀ n ∈ names, IsName n) (hn : IsName name) :
    (ofNames (names ++ [name])).directory = ofNames names := by
  rw [directory, parent?_ofNames h hn, Option.getD_some]

-- The path of an entry of the directory `d`, by its names from there on.
def entry (d : Path) (names : List String) : Path :=
  names.foldl (fun p name => p.join (.ofText name)) d

theorem entry_ofNames {more : List String} (h : ∀ n ∈ names, IsName n) (hm : ∀ n ∈ more, IsName n) :
    entry (ofNames names) more = ofNames (names ++ more) := by
  induction more generalizing names
  case nil => rw [List.append_nil]; rfl
  case cons name more hi =>
    have ⟨hn, hm⟩ := List.forall_mem_cons.mp hm
    rw [entry, List.foldl_cons, ← entry, join_ofNames h hn,
      hi (List.forall_mem_append.mpr ⟨h, by simpa using hn⟩) hm, List.append_assoc, List.singleton_append]

-- Wherever a directory is seen from, its entry has the entry's names in addition.
theorem settled_join_entry (b : Path) (h : ∀ n ∈ names, IsName n) :
    settled (b.join (entry d names)).components = settled (b.join d).components ++ names.map .name := by
  induction names generalizing d
  case nil => rw [List.map_nil, List.append_nil]; rfl
  case cons name names hi =>
    have ⟨hn, h⟩ := List.forall_mem_cons.mp h
    have hu : .up ∉ (ofText name).components := by simp [hn.components_ofText]
    have hd : settled (b.join (d.join (.ofText name))).components =
        settled (b.join d).components ++ [.name name] := by
      rw [← normalize?_eq_iff.mp (normalize?_join_join hn.not_isAbsolute), settled_join hn.not_isAbsolute hu,
        hn.components_ofText]
      rfl
    rw [entry, List.foldl_cons, ← entry, hi h, hd, List.append_assoc, List.map_cons, List.singleton_append]

theorem absolutize_entry_inj {base : Path} (hb : base.isAbsolute) {names' : List String}
    (h : ∀ n ∈ names, IsName n) (h' : ∀ n ∈ names', IsName n)
    (he : absolutize base (entry d names) = absolutize base (entry d names')) : names = names' := by
  have hne (p : Path) : (base.join p).normalize? ≠ none := by
    have ⟨q, hq, _⟩ := normalize?_of_isAbsolute <| isAbsolute_join (q := p) hb
    simp [hq]
  rw [absolutize, absolutize, identity_eq_iff (hne _) (hne _), settled_join_entry base h,
    settled_join_entry base h', List.append_right_inj] at he
  exact (List.map_inj_right fun _ _ => Component.name.inj).mp he

theorem components_entry (hd : d.text.toList ≠ []) (h : ∀ n ∈ names, IsName n) :
    (entry d names).components = d.components ++ names.map .name := by
  induction names generalizing d
  case nil => rw [List.map_nil, List.append_nil]; rfl
  case cons name names hi =>
    have ⟨hn, h⟩ := List.forall_mem_cons.mp h
    rw [entry, List.foldl_cons, ← entry, hi (text_join_ne_nil d hn.ne_nil) h, components_join hn.not_isAbsolute hd,
      text_ofText, hn.ofSegments_eq, List.append_assoc, List.map_cons, List.singleton_append]

-- An entry is seen from a directory as an entry of what its own directory is seen as.
theorem join_entry (b : Path) (hd : d.text.toList ≠ []) (h : ∀ n ∈ names, IsName n) :
    b.join (entry d names) = entry (b.join d) names := by
  induction names generalizing d
  case nil => rfl
  case cons name names hi =>
    have ⟨hn, h⟩ := List.forall_mem_cons.mp h
    rw [entry, List.foldl_cons, ← entry, hi (text_join_ne_nil d hn.ne_nil) h, ← join_join hn.not_isAbsolute hd]
    rfl

theorem text_entry_ne_nil (hd : d.text.toList ≠ []) (h : ∀ n ∈ names, IsName n) :
    (entry d names).text.toList ≠ [] := by
  induction names generalizing d
  case nil => exact hd
  case cons name names hi =>
    have ⟨hn, h⟩ := List.forall_mem_cons.mp h
    exact hi (text_join_ne_nil d hn.ne_nil) h

theorem mem_text_entry {c : Char} (h : ∀ n ∈ names, IsName n) (hc : c ∈ (entry d names).text.toList) :
    c ∈ d.text.toList ∨ c = '/' ∨ ∃ n ∈ names, c ∈ n.toList := by
  induction names generalizing d
  case nil => exact .inl hc
  case cons name names hi =>
    have ⟨hn, h⟩ := List.forall_mem_cons.mp h
    obtain hc | hc | ⟨n, hm, hc⟩ := hi h hc
    case inr.inl => exact .inr (.inl hc)
    case inr.inr => exact .inr (.inr ⟨n, .tail _ hm, hc⟩)
    case inl =>
      rw [text_join hn.not_isAbsolute, String.toList_append, String.toList_append, List.mem_append,
        List.mem_append] at hc
      obtain hc | hc | hc := hc
      case inl     => exact .inl hc
      case inr.inr => exact .inr (.inr ⟨name, .head _, hc⟩)
      case inr.inl =>
        rw [gap] at hc
        split at hc <;> simp at hc
        exact .inr (.inl hc)

end Path

end ScriptMaps
