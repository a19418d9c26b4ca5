import ScriptMaps.Proofs.Text.Runs

-- Case folding against the case of ASCII letters. Outside ASCII there are two characters that fold into it,
-- so words without their letters are compared alike both ways.

namespace ScriptMaps.Text

variable {c d : Char} {a b cs word front rest : List Char}

-- Only capitals are changed, and to letters that are ASCII as well.
theorem toNat_toLower_lt_iff : c.toLower.toNat < 0x80 ↔ c.toNat < 0x80 := by
  by_cases hc : c.val ≥ 'A'.val ∧ c.val ≤ 'Z'.val
  case neg =>
    have hl : c.toLower = c := dif_neg hc
    rw [hl]
  case pos =>
    have hl : c.toLower.toNat = (c.val + 32).toNat := congrArg Char.toNat (dif_pos hc)
    have hhigh : c.val.toNat ≤ 90 := UInt32.le_iff_toNat_le.mp hc.right
    have hadd : (c.val + 32).toNat = (c.val.toNat + 32) % 2 ^ 32 := UInt32.toNat_add ..
    have hn : c.toNat = c.val.toNat := rfl
    omega

theorem toLower_of_le (h : 0x80 ≤ c.toNat) : c.toLower = c := by
  refine dif_neg fun hc => ?_
  have hhigh : c.toNat ≤ 90 := UInt32.le_iff_toNat_le.mp hc.right
  omega

theorem fold_eq_of_toLower_eq (h : c.toLower = d.toLower) : fold c = fold d := by
  have hascii : c.toNat < 0x80 ↔ d.toNat < 0x80 := by
    rw [← toNat_toLower_lt_iff, h, toNat_toLower_lt_iff]
  by_cases hc : c.toNat < 0x80
  case pos => rw [fold, fold, if_pos hc, if_pos (hascii.mp hc), h]
  case neg =>
    have hd : ¬d.toNat < 0x80 := fun hd => hc (hascii.mpr hd)
    rw [toLower_of_le (Nat.le_of_not_lt hc), toLower_of_le (Nat.le_of_not_lt hd)] at h
    rw [h]

theorem map_fold_eq_of_sameAscii (h : sameAscii a b) : a.map fold = b.map fold := by
  rw [sameAscii_iff] at h
  induction a generalizing b
  case nil =>
    cases List.map_eq_nil_iff.mp h.symm
    rfl
  case cons c a hi =>
    obtain ⟨d, b, rfl, hd, hb⟩ := List.map_eq_cons_iff.mp h.symm
    rw [List.map_cons, List.map_cons, fold_eq_of_toLower_eq hd.symm, hi hb.symm]

-- Of a name only its folding is read.
theorem afterFolded?_congr (h : a.map fold = b.map fold) (cs : List Char) :
    afterFolded? a cs = afterFolded? b cs := by
  refine Option.ext fun rest => ?_
  rw [afterFolded?_eq_some_iff, afterFolded?_eq_some_iff, h]

theorem ascii_of_mem_foldRuns : ∀ r ∈ foldRuns, r.target < 0x80 →
    r.first = r.last ∧ (r.first = 'ſ'.toNat ∧ r.target = 's'.toNat ∨
      r.first = '\u212A'.toNat ∧ r.target = 'k'.toNat) := by
  decide +kernel

theorem toLower_eq_of_fold_eq (h0 : d.toNat ≠ 0) (hd : d.toNat < 0x80) (h : fold c = d) :
    c.toLower = d ∨ c = 'ſ' ∧ d = 's' ∨ c = '\u212A' ∧ d = 'k' := by
  rw [fold] at h
  split at h
  case isTrue => exact .inl h
  case isFalse hc =>
    split at h
    case h_2 => exact absurd (h ▸ hd) hc
    case h_1 r hr =>
      have hcovers : r.first ≤ c.toNat ∧ c.toNat ≤ r.last := by
        have hrun := List.find?_some hr
        rw [FoldRun.covers, Bool.and_eq_true, Bool.and_eq_true] at hrun
        exact hrun.left.imp of_decide_eq_true of_decide_eq_true
      have hle : r.target + (c.toNat - r.first) ≤ d.toNat := by
        by_contra hlt
        exact ofNat_ne (Nat.lt_of_not_le hlt) h0 h
      obtain ⟨hlast, hrun⟩ := ascii_of_mem_foldRuns r (List.mem_of_find?_eq_some hr) (by omega)
      have hfirst : c.toNat = r.first := by omega
      rw [hfirst, Nat.sub_self, Nat.add_zero] at h
      refine .inr <| hrun.imp ?_ ?_
      all_goals
        rintro ⟨hn, ht⟩
        exact ⟨by rw [← c.ofNat_toNat, hfirst, hn, Char.ofNat_toNat], by rw [← h, ht, Char.ofNat_toNat]⟩

theorem isWord_of_fold_eq (h0 : d.toNat ≠ 0) (hd : d.toNat < 0x80) (hw : isWord d) (h : fold c = d) :
    isWord c := by
  obtain h | ⟨rfl, _⟩ | ⟨rfl, _⟩ := toLower_eq_of_fold_eq h0 hd h
  case inl     => exact isWord_of_toLower (h ▸ hw)
  case inr.inl => decide +kernel
  case inr.inr => decide +kernel

-- A word that no other character folds into.
def FoldsAscii (word : List Char) : Prop :=
  ∀ c ∈ lowerAscii word, c.toNat ≠ 0 ∧ c.toNat < 0x80 ∧ c ≠ 's' ∧ c ≠ 'k'

instance : Decidable (FoldsAscii word) :=
  List.decidableBAll ..

theorem FoldsAscii.sameAscii (hw : FoldsAscii word) (h : front.map fold = word.map fold) :
    sameAscii word front := by
  rw [sameAscii_iff]
  induction word generalizing front
  case nil =>
    cases List.map_eq_nil_iff.mp h
    rfl
  case cons w word hi =>
    have ⟨⟨h0, hlt, hs, hk⟩, hw⟩ := List.forall_mem_cons.mp hw
    obtain ⟨c, front, rfl, hc, hf⟩ := List.map_eq_cons_iff.mp h
    have hascii : fold w = w.toLower := if_pos (toNat_toLower_lt_iff.mp hlt)
    obtain hl | ⟨_, he⟩ | ⟨_, he⟩ := toLower_eq_of_fold_eq h0 hlt (hc.trans hascii)
    case inl     => exact congrArg₂ List.cons hl.symm (hi hw hf)
    case inr.inl => exact absurd he hs
    case inr.inr => exact absurd he hk

theorem FoldsAscii.afterFolded? (hw : FoldsAscii word) : afterFolded? word = afterKeyword? word := by
  funext cs
  refine Option.ext fun rest => ?_
  rw [afterFolded?_eq_some_iff, afterKeyword?_eq_some_iff]
  refine exists_congr fun front => and_congr_right fun _ => ?_
  exact ⟨hw.sameAscii, fun h => (map_fold_eq_of_sameAscii h).symm⟩

theorem readFolded?_eq_some_iff :
    readFolded? word cs = some (front, rest) ↔ cs = front ++ rest ∧ front.map fold = word.map fold := by
  rw [readFolded?, Option.map_eq_some_iff]
  simp only [afterFolded?_eq_some_iff, Prod.mk.injEq]
  constructor
  case mp =>
    rintro ⟨_, ⟨front, rfl, hf⟩, rfl, rfl⟩
    have hl : word.length = front.length := by simpa using (congrArg List.length hf).symm
    rw [hl, List.take_left]
    exact ⟨rfl, hf⟩
  case mpr =>
    rintro ⟨rfl, hf⟩
    have hl : word.length = front.length := by simpa using (congrArg List.length hf).symm
    exact ⟨rest, ⟨front, rfl, hf⟩, by rw [hl, List.take_left], rfl⟩

end ScriptMaps.Text
