import ScriptMaps.Path.Normal
import ScriptMaps.Proofs.Text.Separated

namespace ScriptMaps

namespace Component

-- A component that takes up a segment of its own and is not `..`.
structure Plain (c : Component) : Prop where
  separator_notMem  : '/' ∉ c.text.toList
  ofSegment?_text   : ofSegment? c.text.toList = some c
  ne_up             : c ≠ .up

theorem ofSegment?_cases {segment : List Char} {c : Component} (h : ofSegment? segment = some c) :
    c = .up ∨ c = .name (String.ofList segment) := by
  unfold ofSegment? at h
  split at h <;> simp at h
  case _ => exact .inl h.symm
  case _ => exact .inr h.symm

theorem Plain.eq_name {c : Component} (h : Plain c) : ∃ text, c = .name text :=
  match ofSegment?_cases h.ofSegment?_text with
  | .inl hu => absurd hu h.ne_up
  | .inr hn => ⟨_, hn⟩

-- What the segments of a text stand for is `..` or a plain component.
theorem up_or_plain_of_mem {text : List Char} {c : Component}
    (h : c ∈ (text.splitOn '/').filterMap ofSegment?) : c = .up ∨ Plain c := by
  have ⟨segment, hm, hs⟩ := List.mem_filterMap.mp h
  cases ofSegment?_cases hs
  case inl hu => exact .inl hu
  case inr hn =>
    have ht : c.text.toList = segment := by simp [hn, Component.text]
    exact .inr ⟨ht ▸ Text.separator_notMem_of_mem_splitOn hm, ht ▸ hs, by simp [hn]⟩

-- A text whose first segment stands for a component starts with neither a root nor a `.`.
theorem ofFront?_eq_none {text segment : List Char} {rest : List (List Char)} {c : Component}
    (h : text.splitOn '/' = segment :: rest) (hs : ofSegment? segment = some c) :
    ofFront? text = none := by
  unfold ofFront?
  split
  case h_4 => rfl
  all_goals
    simp [List.splitOn_cons_eq_if_modifyHead, eq_comm (b := segment)] at h
    simp [h.left, ofSegment?] at hs

end Component

namespace Path

-- What the components of a normal form are: plain ones, after a root if the path is absolute.
def Normal (components : List Component) : Prop :=
  ∃ base names, (base = [] ∨ base = [.root]) ∧ (∀ c ∈ names, c.Plain) ∧ components = base ++ names

theorem foldl_settle_plain {names : List Component} (h : ∀ c ∈ names, c.Plain)
    (done : List Component) : names.foldl settle done = names.reverse ++ done := by
  induction names generalizing done
  case nil => rfl
  case cons c names hi =>
    have ⟨text, hc⟩ := (h c <| by simp).eq_name
    simp [hc, settle, hi fun c hm => h c <| by simp [hm]]

-- The stack of a normal form under way: plain components on top of `base`.
theorem settle_normal {base names : List Component} {c : Component} (hb : base = [] ∨ base = [.root])
    (hn : ∀ c ∈ names, c.Plain) (hc : c = .up ∨ c.Plain) :
    ∃ names', (∀ c ∈ names', c.Plain) ∧ settle (names ++ base) c = names' ++ base := by
  cases hc
  case inl hc =>
    subst hc
    cases names
    case nil => refine ⟨[], by simp, ?_⟩; cases hb <;> simp_all [settle]
    case cons c names =>
      have ⟨text, hc⟩ := (hn c <| by simp).eq_name
      exact ⟨names, fun c hm => hn c <| by simp [hm], by simp [hc, settle]⟩
  case inr hc =>
    have ⟨text, he⟩ := hc.eq_name
    refine ⟨c :: names, ?_, by simp [he, settle]⟩
    intro c' hm
    cases hm
    case head   => exact hc
    case tail h => exact hn c' h

theorem foldl_settle_normal {base names segments : List Component}
    (hb : base = [] ∨ base = [.root]) (hn : ∀ c ∈ names, c.Plain)
    (hs : ∀ c ∈ segments, c = .up ∨ c.Plain) :
    ∃ names', (∀ c ∈ names', c.Plain) ∧ segments.foldl settle (names ++ base) = names' ++ base := by
  induction segments generalizing names
  case nil => exact ⟨names, hn, rfl⟩
  case cons c segments hi =>
    have ⟨names', hn', he⟩ := settle_normal hb hn (hs c <| by simp)
    simp only [List.foldl_cons, he]
    exact hi hn' fun c hm => hs c <| by simp [hm]

-- The stack that the start of a path leaves behind before the path's segments are read.
def base (text : List Char) : List Component :=
  (Component.ofFront? text).toList.foldl settle []

theorem base_cases (text : List Char) : base text = [] ∨ base text = [.root] := by
  unfold base Component.ofFront?
  split <;> simp [settle]

theorem settled_ofText (text : List Char) :
    ∃ names, (∀ c ∈ names, c.Plain) ∧ settled (Component.ofText text) = base text ++ names := by
  have ⟨names, hn, he⟩ := @foldl_settle_normal _ [] _ (base_cases text) (by simp)
    fun c (hc : c ∈ (text.splitOn '/').filterMap Component.ofSegment?) =>
      Component.up_or_plain_of_mem hc
  refine ⟨names.reverse, by simpa using hn, ?_⟩
  have hr : (base text).reverse = base text := by cases base_cases text <;> simp_all
  rw [settled, Component.ofText, List.foldl_append]
  simp only [List.nil_append, base] at he hr ⊢
  rw [he, List.reverse_append, hr]

theorem normal_settled (p : Path) : Normal (settled p.components) := by
  have ⟨names, hn, he⟩ := settled_ofText p.text.toList
  exact ⟨_, names, base_cases _, hn, p.components_eq ▸ he⟩

theorem Normal.settled_eq {components : List Component} (h : Normal components) :
    settled components = components := by
  have ⟨base, names, hb, hn, he⟩ := h
  cases hb <;> simp_all [settled, settle, foldl_settle_plain hn]

theorem filterMap_text_plain {names : List Component} (h : ∀ c ∈ names, c.Plain) :
    (names.map (·.text.toList)).filterMap Component.ofSegment? = names := by
  induction names
  case nil => rfl
  case cons c names hi =>
    simp [(h c <| by simp).ofSegment?_text]
    simpa using hi fun c hm => h c <| by simp [hm]

theorem splitOn_intercalate_plain {names : List Component} (h : ∀ c ∈ names, c.Plain)
    (hn : names ≠ []) :
    (['/'].intercalate (names.map (·.text.toList))).splitOn '/' = names.map (·.text.toList) := by
  apply List.splitOn_intercalate
  case hx  => simpa using fun c hm => (h c hm).separator_notMem
  case hls => simpa using hn

-- The components of a normal form are read back from the text made of them.
theorem Normal.components_ofComponents {components : List Component} (h : Normal components)
    (hne : components ≠ []) : (ofComponents components).components = components := by
  have ⟨base, names, hb, hn, he⟩ := h
  subst he
  rw [(ofComponents _).components_eq]
  by_cases hz : names = []
  case pos =>
    cases hb <;> simp_all [ofComponents, Component.ofText, Component.ofFront?,
      List.splitOn_cons_eq_if_modifyHead, Component.ofSegment?]
  case neg =>
    have hs := splitOn_intercalate_plain hn hz
    have hf := filterMap_text_plain hn
    cases hb
    case inl hb =>
      have ⟨c, rest, hc⟩ := List.exists_cons_of_ne_nil hz
      have ⟨text, ht⟩ := (hn c <| by simp [hc]).eq_name
      have ho : ofComponents names = ofText ("/".intercalate (names.map (·.text))) := by
        simp [hc, ht, ofComponents]
      have hfront : Component.ofFront? (['/'].intercalate (names.map (·.text.toList))) = none :=
        Component.ofFront?_eq_none (hs.trans <| by rw [hc, List.map_cons])
          (hn c <| by simp [hc]).ofSegment?_text
      simp [hb, ho, Component.ofText, Function.comp_def, hfront, hs, hf]
    case inr hb =>
      simp [hb, ofComponents, Component.ofText, Component.ofFront?, Function.comp_def,
        List.splitOn_cons_eq_if_modifyHead, hs]
      rw [List.filterMap_cons_none rfl, hf]

-- A path that is its own normal form.
def IsNormal (p : Path) : Prop :=
  p.normalize? = some p

theorem isNormal_of_normalize? {p q : Path} (h : p.normalize? = some q) : q.IsNormal := by
  have hn := normal_settled p
  rw [normalize?] at h
  split at h <;> simp at h
  case _ hne =>
    have hc := hn.components_ofComponents (by simpa using hne)
    subst h
    simp only [IsNormal, normalize?, hc, hn.settled_eq]

theorem IsNormal.identity_eq {p : Path} (h : p.IsNormal) : p.identity = p := by
  rw [identity, h, Option.getD_some]

theorem identity_of_normalize? {p q : Path} (h : p.normalize? = some q) : p.identity = q := by
  rw [identity, h, Option.getD_some]

@[simp]
theorem identity_identity (p : Path) : p.identity.identity = p.identity := by
  cases h : p.normalize?
  case none   => simp [identity, h]
  case some q => rw [identity_of_normalize? h, (isNormal_of_normalize? h).identity_eq]

-- The normal form is found in the components alone.
theorem normalize?_congr {p q : Path} (h : p == q) : p.normalize? = q.normalize? := by
  simp only [normalize?, beq_iff.mp h]

-- A path without a normal form, such as `.`, is its own identity under many spellings, so it does
-- not suffice that both paths are their own identity.
theorem IsNormal.eq_of_beq {p q : Path} (hq : q.IsNormal) (hp : p.identity = p) (h : p == q) :
    p = q := by
  rw [← hp, identity_of_normalize? <| (normalize?_congr h).trans hq]

theorem IsNormal.beq_iff_eq {p q : Path} (hp : p.IsNormal) (hq : q.IsNormal) : p == q ↔ p = q where
  mp h := hq.eq_of_beq hp.identity_eq h
  mpr h := h ▸ beq_iff.mpr rfl

theorem isAbsolute_iff {p : Path} : p.isAbsolute ↔ ∃ rest, p.text.toList = '/' :: rest := by
  cases h : p.text.toList <;> simp [isAbsolute, h]

-- An absolute path always has a normal form: nothing takes its root away.
theorem normalize?_of_isAbsolute {p : Path} (h : p.isAbsolute) :
    ∃ q, p.normalize? = some q ∧ q.isAbsolute := by
  have ⟨rest, hr⟩ := isAbsolute_iff.mp h
  have ⟨names, _, hs⟩ := settled_ofText p.text.toList
  have hb : base p.text.toList = [.root] := by simp [hr, base, Component.ofFront?, settle]
  have hc : settled p.components = .root :: names := by rw [p.components_eq, hs, hb]; rfl
  refine ⟨ofComponents (.root :: names), by simp [normalize?, hc], ?_⟩
  simp [isAbsolute_iff, ofComponents]

theorem isAbsolute_identity {p : Path} (h : p.isAbsolute) : p.identity.isAbsolute := by
  have ⟨_, hq, ha⟩ := normalize?_of_isAbsolute h
  exact identity_of_normalize? hq ▸ ha

theorem join_of_isAbsolute {p q : Path} (h : q.isAbsolute) : p.join q = q := by
  simp [join, h]

theorem isAbsolute_join {p q : Path} (h : p.isAbsolute) : (p.join q).isAbsolute := by
  have ⟨rest, hr⟩ := isAbsolute_iff.mp h
  rw [join]
  split
  case isTrue hq => exact hq
  case isFalse   => split <;> simp [isAbsolute_iff, hr]

theorem isAbsolute_directory {p : Path} (h : p.isAbsolute) : p.directory.isAbsolute := by
  have ⟨rest, hr⟩ := isAbsolute_iff.mp h
  simp only [directory, parent?, hr, front]
  split
  case h_1 => simpa using h
  case h_2 => simp [isAbsolute_iff]

theorem absolutize_of_isAbsolute {base p : Path} (h : p.isAbsolute) :
    absolutize base p = p.identity := by
  rw [absolutize, join_of_isAbsolute h]

@[simp]
theorem identity_absolutize (base p : Path) : (absolutize base p).identity = absolutize base p :=
  identity_identity _

theorem isAbsolute_absolutize {base p : Path} (h : base.isAbsolute) :
    (absolutize base p).isAbsolute :=
  isAbsolute_identity <| isAbsolute_join h

end Path

end ScriptMaps
