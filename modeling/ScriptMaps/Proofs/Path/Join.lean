import ScriptMaps.Proofs.Path.Normal

namespace ScriptMaps

namespace Component

-- What the segments of a text stand for, without the text's start.
def ofSegments (text : List Char) : List Component :=
  (text.splitOn '/').filterMap ofSegment?

theorem ofText_eq (text : List Char) : ofText text = (ofFront? text).toList ++ ofSegments text :=
  rfl

theorem ofSegments_append (a b : List Char) :
    ofSegments (a ++ '/' :: b) = ofSegments a ++ ofSegments b := by
  rw [ofSegments, List.splitOn_append_cons_self, List.filterMap_append]
  rfl

-- More segments make no difference to the start of a text.
theorem ofFront?_append {a : List Char} (h : a ≠ []) (b : List Char) :
    ofFront? (a ++ '/' :: b) = ofFront? a := by
  unfold ofFront?
  match a with
  | [c] | c :: d :: rest => split <;> split <;> simp_all

theorem ofText_append {a : List Char} (h : a ≠ []) (b : List Char) :
    ofText (a ++ '/' :: b) = ofText a ++ ofSegments b := by
  rw [ofText_eq, ofText_eq, ofFront?_append h, ofSegments_append, List.append_assoc]

theorem ofText_append_separator (a b : List Char) :
    ofText (a ++ '/' :: b) = ofText (a ++ ['/']) ++ ofSegments b := by
  have hn : ofSegments [] = [] := rfl
  have hf : ofFront? (a ++ '/' :: b) = ofFront? (a ++ ['/']) := by
    cases a
    case nil  => rfl
    case cons => rw [ofFront?_append (by simp), ofFront?_append (by simp)]
  rw [ofText_eq, ofText_eq, hf, ofSegments_append, ofSegments_append a [], hn, List.append_nil,
    List.append_assoc]

theorem Plain.ne_root {c : Component} (h : Plain c) : c ≠ .root := by
  obtain ⟨_, hn⟩ := h.eq_name
  simp [hn]

end Component

namespace Path

variable {p q : Path}

theorem ofFront?_relative (h : ¬p.isAbsolute) :
    Component.ofFront? p.text.toList = none ∨ Component.ofFront? p.text.toList = some .here := by
  rw [isAbsolute_iff] at h
  unfold Component.ofFront?
  split <;> simp_all

@[simp]
theorem settle_here (done : List Component) : settle done .here = done := by
  unfold settle
  split <;> simp_all

-- A relative path is settled segment by segment: its start leaves nothing behind.
theorem foldl_settle_relative (h : ¬q.isAbsolute) (done : List Component) :
    q.components.foldl settle done = (Component.ofSegments q.text.toList).foldl settle done := by
  rw [q.components_eq, Component.ofText_eq]
  cases ofFront?_relative h <;> simp [*]

-- Between a path and what is joined to it there is one separator, which may be the path's own last one.
theorem toList_join (h : ¬q.isAbsolute) :
    p.text.toList = [] ∧ p.join q = q ∨
      ∃ before, (p.text.toList = before ∧ before ≠ [] ∨ p.text.toList = before ++ ['/']) ∧
        (p.join q).text.toList = before ++ '/' :: q.text.toList := by
  rw [join, if_neg h]
  split
  case isFalse hs =>
    have hp : p.text.toList ≠ [] := fun hp => by simp [hp] at hs
    exact .inr ⟨p.text.toList, .inl ⟨rfl, hp⟩, by simp⟩
  case isTrue hs =>
    cases hc : p.text.toList.getLast?
    case none =>
      have hp : p.text.toList = [] := List.getLast?_eq_none_iff.mp hc
      exact .inl ⟨hp, by ext; simp [hp]⟩
    case some c =>
      have hc' : c = '/' := by simpa [hc] using hs
      obtain ⟨before, hp⟩ := List.getLast?_eq_some_iff.mp hc
      exact .inr ⟨before, .inr <| hc' ▸ hp, by simp [hp, hc']⟩

theorem components_join (h : ¬q.isAbsolute) (hp : p.text.toList ≠ []) :
    (p.join q).components = p.components ++ Component.ofSegments q.text.toList := by
  obtain ⟨hn, _⟩ | ⟨before, hb, hj⟩ := toList_join (p := p) h
  case inl => exact absurd hn hp
  case inr =>
    rw [(p.join q).components_eq, p.components_eq, hj]
    obtain ⟨rfl, hne⟩ | hb := hb
    case inl => exact Component.ofText_append hne _
    case inr => rw [hb, Component.ofText_append_separator]

theorem join_of_nil (hp : p.text.toList = []) (q : Path) : p.join q = q := by
  by_cases h : q.isAbsolute
  case pos => exact join_of_isAbsolute h
  case neg => ext; simp [join, h, String.toList_eq_nil_iff.mp hp]

-- A relative path goes on from where the normal form of the path before it ends.
theorem foldl_settle_join (h : ¬q.isAbsolute) (done : List Component) :
    (p.join q).components.foldl settle done =
      q.components.foldl settle (p.components.foldl settle done) := by
  by_cases hp : p.text.toList = []
  case pos =>
    have hc : p.components = [] := by rw [p.components_eq, hp]; rfl
    rw [join_of_nil hp, hc, List.foldl_nil]
  case neg => rw [components_join h hp, List.foldl_append, foldl_settle_relative h]

theorem not_isAbsolute_join (hp : ¬p.isAbsolute) (hq : ¬q.isAbsolute) : ¬(p.join q).isAbsolute := by
  obtain ⟨_, hj⟩ | ⟨before, hb, hj⟩ := toList_join (p := p) hq
  case inl => rwa [hj]
  case inr =>
    rw [isAbsolute_iff] at hp ⊢
    rintro ⟨rest, hr⟩
    refine hp ?_
    cases before
    case nil => exact ⟨[], by simpa using hb⟩
    case cons c before =>
      have hc : c = '/' := by simp_all
      obtain ⟨hb, _⟩ | hb := hb <;> simp [hb, hc]

-- What is put between a path and a relative one that is joined to it.
def gap (p : Path) : String :=
  if p.text.toList.getLast?.all (· == '/') then "" else "/"

theorem text_join (h : ¬q.isAbsolute) : (p.join q).text = p.text ++ (p.gap ++ q.text) := by
  rw [join, if_neg h, gap]
  split <;> simp [String.append_assoc]

theorem gap_join (h : ¬q.isAbsolute) (hq : q.text.toList ≠ []) : (p.join q).gap = q.gap := by
  have hlast : (p.join q).text.toList.getLast? = q.text.toList.getLast? := by
    simp [text_join h, List.getLast?_append, List.getLast?_eq_some_getLast hq]
  rw [gap, hlast, gap]

theorem text_join_ne_nil (p : Path) (hq : q.text.toList ≠ []) : (p.join q).text.toList ≠ [] := by
  by_cases h : q.isAbsolute
  case pos => rwa [join_of_isAbsolute h]
  case neg => simp [text_join h, hq]

-- It makes no difference which of three paths are joined first, unless the one in the middle is empty.
theorem join_join {b : Path} (h : ¬q.isAbsolute) (hp : p.text.toList ≠ []) :
    (b.join p).join q = b.join (p.join q) := by
  by_cases ha : p.isAbsolute
  case pos => rw [join_of_isAbsolute ha, join_of_isAbsolute <| isAbsolute_join ha]
  case neg =>
    refine Path.ext ?_
    rw [text_join h, gap_join ha hp, text_join ha, text_join <| not_isAbsolute_join ha h, text_join h]
    simp only [String.append_assoc]

theorem normalize?_eq_none_iff : p.normalize? = none ↔ settled p.components = [] := by
  rw [normalize?]
  split <;> simp_all

theorem settled_eq_components (h : p.normalize? = some q) : settled p.components = q.components := by
  have hn := normal_settled p
  rw [normalize?] at h
  split at h <;> simp at h
  case _ hne => rw [← h, hn.components_ofComponents (by simpa using hne)]

-- The components of a path's normal form determine it.
theorem normalize?_eq_iff : p.normalize? = q.normalize? ↔ settled p.components = settled q.components := by
  constructor
  case mpr => intro h; simp only [normalize?, h]
  case mp =>
    intro h
    cases hq : q.normalize?
    case none =>
      rw [normalize?_eq_none_iff.mp (h.trans hq), normalize?_eq_none_iff.mp hq]
    case some => rw [settled_eq_components (h.trans hq), settled_eq_components hq]

theorem normalize?_join_congr {p' : Path} (h : ¬q.isAbsolute) (hp : p.normalize? = p'.normalize?) :
    (p.join q).normalize? = (p'.join q).normalize? := by
  have hs := List.reverse_inj.mp <| normalize?_eq_iff.mp hp
  rw [normalize?_eq_iff, settled, foldl_settle_join h, hs, ← foldl_settle_join h, settled]

-- It makes no difference to the normal form which of three paths are joined first.
theorem normalize?_join_join {b : Path} (h : ¬q.isAbsolute) :
    ((b.join p).join q).normalize? = (b.join (p.join q)).normalize? := by
  by_cases hp : p.isAbsolute
  case pos => rw [join_of_isAbsolute hp, join_of_isAbsolute <| isAbsolute_join hp]
  case neg =>
    rw [normalize?_eq_iff, settled, settled, foldl_settle_join h, foldl_settle_join hp,
      foldl_settle_join <| not_isAbsolute_join hp h, foldl_settle_join h]

-- From where a path is seen counts by its normal form only.
theorem absolutize_congr {base base' : Path} (hb : base.isAbsolute)
    (h : base'.normalize? = base.normalize?) (p : Path) : absolutize base' p = absolutize base p := by
  by_cases hp : p.isAbsolute
  case pos => rw [absolutize_of_isAbsolute hp, absolutize_of_isAbsolute hp]
  case neg =>
    obtain ⟨q, hq, _⟩ := normalize?_of_isAbsolute <| isAbsolute_join (q := p) hb
    rw [absolutize, absolutize, identity_of_normalize? hq,
      identity_of_normalize? <| (normalize?_join_congr hp h).trans hq]

-- A relative path that does not climb adds what it settles to by itself.
theorem settled_join (h : ¬q.isAbsolute) (hu : .up ∉ q.components) :
    settled (p.join q).components = settled p.components ++ settled q.components := by
  have hplain : ∀ c ∈ Component.ofSegments q.text.toList, c.Plain := by
    intro c hc
    refine (Component.up_or_plain_of_mem hc).resolve_left ?_
    rintro rfl
    rw [q.components_eq, Component.ofText_eq] at hu
    exact hu <| List.mem_append_right _ hc
  simp only [settled, foldl_settle_join h, foldl_settle_relative h, foldl_settle_plain hplain,
    List.reverse_append, List.append_nil, List.reverse_reverse]

theorem isAbsolute_iff_root_mem : p.isAbsolute ↔ .root ∈ p.components := by
  rw [isAbsolute_iff, p.components_eq, Component.ofText_eq, List.mem_append]
  constructor
  case mp =>
    rintro ⟨rest, hr⟩
    simp [hr, Component.ofFront?]
  case mpr =>
    rintro (h | h)
    case inl =>
      unfold Component.ofFront? at h
      split at h <;> simp_all
    case inr =>
      cases Component.up_or_plain_of_mem h
      case inl h => cases h
      case inr h => exact absurd rfl h.ne_root

theorem isNormal_of_identity_eq (h : p.identity = p) (hn : p.normalize? ≠ none) : p.IsNormal := by
  obtain ⟨q, hq⟩ := Option.ne_none_iff_exists'.mp hn
  rw [IsNormal, hq, ← identity_of_normalize? hq, h]

theorem IsNormal.settled_eq (h : p.IsNormal) : settled p.components = p.components :=
  settled_eq_components h

theorem settled_ne_nil (h : p.normalize? ≠ none) : settled p.components ≠ [] :=
  mt normalize?_eq_none_iff.mpr h

theorem plain_of_mem_settled (h : ¬p.isAbsolute) {c : Component} (hc : c ∈ settled p.components) :
    c.Plain := by
  obtain ⟨names, hn, hs⟩ := settled_ofText p.text.toList
  have hb : base p.text.toList = [] := by cases ofFront?_relative h <;> simp_all [base]
  rw [p.components_eq, hs, hb] at hc
  exact hn c hc

-- The normal form of a path is absolute exactly if the path is.
theorem root_mem_settled_iff : .root ∈ settled p.components ↔ p.isAbsolute := by
  constructor
  case mpr =>
    intro hp
    obtain ⟨q, hq, ha⟩ := normalize?_of_isAbsolute hp
    rwa [settled_eq_components hq, ← isAbsolute_iff_root_mem]
  case mp =>
    intro hr
    refine Decidable.byContradiction fun hp => ?_
    exact (plain_of_mem_settled hp hr).ne_root rfl

theorem IsNormal.up_notMem (h : p.IsNormal) (hp : ¬p.isAbsolute) : .up ∉ p.components := by
  intro hu
  exact (plain_of_mem_settled hp (h.settled_eq.symm ▸ hu)).ne_up rfl

theorem identity_eq_iff (hp : p.normalize? ≠ none) (hq : q.normalize? ≠ none) :
    p.identity = q.identity ↔ settled p.components = settled q.components := by
  obtain ⟨p', hp'⟩ := Option.ne_none_iff_exists'.mp hp
  obtain ⟨q', hq'⟩ := Option.ne_none_iff_exists'.mp hq
  rw [← normalize?_eq_iff, identity_of_normalize? hp', identity_of_normalize? hq', hp', hq',
    Option.some_inj]

-- A normal path stays what it is if it is absolute, or if it is seen from a path that leads nowhere.
theorem absolutize_eq_self_iff {base f : Path} (hf : f.IsNormal) :
    absolutize base f = f ↔ f.isAbsolute ∨ base.normalize? = none := by
  by_cases ha : f.isAbsolute
  case pos => simp [absolutize_of_isAbsolute ha, hf.identity_eq, ha]
  case neg =>
    have hs := settled_join (p := base) ha (hf.up_notMem ha)
    have hn : f.normalize? ≠ none := by simp [show f.normalize? = some f from hf]
    have hj : (base.join f).normalize? ≠ none := by
      simp [normalize?_eq_none_iff, hs, settled_ne_nil hn]
    have he : absolutize base f = f ↔ (base.join f).identity = f.identity := by
      rw [absolutize, hf.identity_eq]
    rw [he, identity_eq_iff hj hn, hs, List.append_left_eq_self, ← normalize?_eq_none_iff]
    simp [ha]

-- A relative path that does not climb is the same from a root as from an absolute directory exactly if
-- the root leads nowhere or to that directory. A relative root is itself seen from the directory.
theorem absolutize_absolutize_eq_iff {base root file : Path} (hb : base.isAbsolute)
    (hf : ¬file.isAbsolute) (hu : .up ∉ file.components) (hn : file.normalize? ≠ none) :
    absolutize base (absolutize root file) = absolutize base file ↔
      root.normalize? = none ∨ root.normalize? = base.normalize? := by
  have hjoin (p : Path) :
      settled (p.join file).components = settled p.components ++ settled file.components :=
    settled_join hf hu
  obtain ⟨key, hkey⟩ : ∃ key, (root.join file).normalize? = some key := by
    refine Option.ne_none_iff_exists'.mp ?_
    simp [normalize?_eq_none_iff, hjoin, settled_ne_nil hn]
  have hnormal := isNormal_of_normalize? hkey
  have hsettled : settled key.components = settled root.components ++ settled file.components := by
    rw [hnormal.settled_eq, ← settled_eq_components hkey, hjoin]
  have hne (p : Path) : (base.join p).normalize? ≠ none := by
    obtain ⟨_, hq, _⟩ := normalize?_of_isAbsolute <| isAbsolute_join (q := p) hb
    simp [hq]
  rw [show absolutize root file = key from identity_of_normalize? hkey, absolutize, absolutize,
    identity_eq_iff (hne _) (hne _), hjoin]
  have hka : key.isAbsolute ↔ root.isAbsolute := by
    rw [← root_mem_settled_iff, hsettled, List.mem_append, root_mem_settled_iff, root_mem_settled_iff]
    simp [hf]
  by_cases hroot : root.isAbsolute
  case pos =>
    obtain ⟨_, hr, _⟩ := normalize?_of_isAbsolute hroot
    rw [join_of_isAbsolute (hka.mpr hroot), hsettled, List.append_cancel_right_eq, ← normalize?_eq_iff]
    simp [hr]
  case neg =>
    have hkr : ¬key.isAbsolute := mt hka.mp hroot
    have hrb : root.normalize? ≠ base.normalize? := by
      intro h
      rw [← root_mem_settled_iff, normalize?_eq_iff.mp h, root_mem_settled_iff] at hroot
      exact hroot hb
    rw [settled_join hkr (hnormal.up_notMem hkr), hsettled, normalize?_eq_none_iff]
    simp [hrb]

theorem root_or_name_of_mem_settled {c : Component} (hc : c ∈ settled p.components) :
    c = .root ∨ ∃ name, c = .name name := by
  obtain ⟨base, names, hb, hn, hs⟩ := normal_settled p
  rw [hs] at hc
  obtain hc | hc := List.mem_append.mp hc
  case inr => exact .inr (hn c hc).eq_name
  case inl =>
    obtain rfl | rfl := hb
    case inl => cases hc
    case inr => exact .inl (List.mem_singleton.mp hc)

-- A normal form is its own, holds no segments that stay or climb, is absolute if the path is, and stands for
-- the path wherever another path is joined to it. An absolute path has one, and the path by which a file is
-- known is known by itself.
theorem normalize?_laws (a b : Path) :
    (∀ n, a.normalize? = some n →
      n.normalize? = some n ∧ .here ∉ n.components ∧ .up ∉ n.components ∧
      (n.isAbsolute ↔ a.isAbsolute) ∧ (a.join b).normalize? = (n.join b).normalize?) ∧
    (a.isAbsolute → a.normalize? ≠ none) ∧
    a.identity.identity = a.identity := by
  refine ⟨?normal, ?absolute, identity_identity a⟩
  case absolute =>
    intro ha
    obtain ⟨_, hn, _⟩ := normalize?_of_isAbsolute ha
    simp [hn]
  case normal =>
    intro n hn
    have hnormal := isNormal_of_normalize? hn
    have hs := settled_eq_components hn
    have hc {c : Component} (hc : c ∈ n.components) : c = .root ∨ ∃ name, c = .name name :=
      root_or_name_of_mem_settled (hs ▸ hc)
    refine ⟨hnormal, fun h => by simpa using hc h, fun h => by simpa using hc h, ?root, ?join⟩
    case root => rw [isAbsolute_iff_root_mem, ← hs, root_mem_settled_iff]
    case join =>
      by_cases hb : b.isAbsolute
      case pos => rw [join_of_isAbsolute hb, join_of_isAbsolute hb]
      case neg => exact normalize?_join_congr hb (hn.trans hnormal.symm)

-- A path that climbs above its start, what climbs out of it again, a root that cannot be climbed over, and
-- a path of which nothing is left.
theorem normalize?_laws_climbing :
    let a := ofText "x/../../y/./z/..//w/"
    let n := ofText "y/w"
    let b := ofText "../../../v"
    let c := ofText "/../."
    let d := ofText "./a/../.."
    a.normalize? = some n ∧ n.normalize? = some n ∧ .here ∉ n.components ∧ .up ∉ n.components ∧
    (n.isAbsolute ↔ a.isAbsolute) ∧ (a.join b).normalize? = (n.join b).normalize? ∧
    c.isAbsolute ∧ c.normalize? ≠ none ∧ d.normalize? = none ∧ d.identity.identity = d.identity := by
  intro a n b c d
  have ha : a.normalize? = some n := rfl
  have hc : c.isAbsolute := by decide
  obtain ⟨hnormal, hhere, hup, habsolute, hjoin⟩ := (normalize?_laws a b).left n ha
  exact ⟨ha, hnormal, hhere, hup, habsolute, hjoin, hc, (normalize?_laws c b).right.left hc, rfl,
    (normalize?_laws d b).right.right⟩

end Path

end ScriptMaps
