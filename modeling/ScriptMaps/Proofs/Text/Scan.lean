import Mathlib.Data.List.Basic
import Mathlib.Data.List.TakeWhile
import ScriptMaps.Text.Fold
import ScriptMaps.Text.Scan

namespace ScriptMaps.Text

variable {cs rest : List Char}

theorem afterChar?_eq_some {d : Char} (h : afterChar? d cs = some rest) : cs = d :: rest := by
  cases cs
  case nil => cases h
  case cons c cs =>
    rw [afterChar?] at h
    split at h
    case isTrue hc => cases h; rw [hc]
    case isFalse   => cases h

section
variable {p : Char → Bool} {d : Char} (hd : p d = false) (cs text : List Char)
include hd

theorem takeWhile_append_cons : (cs ++ d :: text).takeWhile p = cs.takeWhile p := by
  rw [List.takeWhile_append]
  split
  case isTrue h => simp [hd, (List.takeWhile_prefix p).eq_of_length h]
  case isFalse  => rfl

theorem dropWhile_append_cons : (cs ++ d :: text).dropWhile p = cs.dropWhile p ++ d :: text := by
  rw [List.dropWhile_append]
  split
  case isTrue h => simp [hd, List.isEmpty_iff.mp h]
  case isFalse  => rfl

end

theorem trimStart_eq (cs : List Char) :
    ∃ blanks, cs = blanks ++ trimStart cs ∧ ∀ c ∈ blanks, isBlank c :=
  ⟨cs.takeWhile isBlank, List.takeWhile_append_dropWhile.symm, fun _ => List.mem_takeWhile_imp⟩

theorem afterBlanks?_eq_some (h : afterBlanks? cs = some rest) :
    ∃ blanks, cs = blanks ++ rest ∧ ∀ c ∈ blanks, isBlank c := by
  cases cs
  case nil => cases h
  case cons c cs =>
    rw [afterBlanks?] at h
    split at h
    case isFalse => cases h
    case isTrue hc =>
      cases h
      have ⟨blanks, hcs, hb⟩ := trimStart_eq cs
      exact ⟨c :: blanks, congrArg _ hcs, List.forall_mem_cons.mpr ⟨hc, hb⟩⟩

theorem word?_eq_some {word : List Char} (h : word? cs = some (word, rest)) :
    cs = word ++ rest ∧ ∀ c ∈ word, isWord c := by
  rw [word?] at h
  split at h
  case h_1   => cases h
  case h_2 _ =>
    cases h
    exact ⟨List.takeWhile_append_dropWhile.symm, fun _ => List.mem_takeWhile_imp⟩

theorem afterKeyword?_eq_some {word : List Char} (h : afterKeyword? word cs = some rest) :
    ∃ front, cs = front ++ rest ∧ lowerAscii front = lowerAscii word := by
  fun_induction afterKeyword?
  case case1 => cases h; exact ⟨[], rfl, rfl⟩
  case case2 => cases h
  case case3 w _ c _ hw hi =>
    have ⟨front, hf, hl⟩ := hi h
    refine ⟨c :: front, congrArg _ hf, ?_⟩
    simpa [lowerAscii, hw] using hl
  case case4 => cases h

section
variable {c : Char} (hm : c ∈ cs)
include hm

theorem mem_of_afterChar? {d : Char} (h : afterChar? d cs = some rest) (hd : c ≠ d) : c ∈ rest := by
  rw [afterChar?_eq_some h] at hm
  exact (List.mem_cons.mp hm).resolve_left hd

theorem mem_trimStart (hb : ¬isBlank c) : c ∈ trimStart cs := by
  have ⟨blanks, hs, hall⟩ := trimStart_eq cs
  rw [hs] at hm
  exact (List.mem_append.mp hm).resolve_left fun h => hb <| hall c h

theorem mem_of_afterBlanks? (h : afterBlanks? cs = some rest) (hb : ¬isBlank c) : c ∈ rest := by
  have ⟨blanks, hs, hall⟩ := afterBlanks?_eq_some h
  rw [hs] at hm
  exact (List.mem_append.mp hm).resolve_left fun h => hb <| hall c h

theorem mem_of_word? {word : List Char} (h : word? cs = some (word, rest)) (hw : ¬isWord c) : c ∈ rest := by
  have ⟨hs, hall⟩ := word?_eq_some h
  rw [hs] at hm
  exact (List.mem_append.mp hm).resolve_left fun h => hw <| hall c h

theorem mem_of_afterKeyword? {word : List Char} (h : afterKeyword? word cs = some rest)
    (hw : c.toLower ∉ lowerAscii word) : c ∈ rest := by
  have ⟨front, hs, hl⟩ := afterKeyword?_eq_some h
  rw [hs] at hm
  exact (List.mem_append.mp hm).resolve_left fun h => hw <| hl ▸ List.mem_map_of_mem h

theorem mem_trim (hb : ¬isBlank c) : c ∈ trim cs := by
  have h := mem_trimStart hm hb
  exact List.mem_reverse.mpr <| mem_trimStart (List.mem_reverse.mpr h) hb

end

theorem head?_of_afterKeyword? {word : List Char} (h : afterKeyword? word cs = some rest) (hn : word ≠ []) :
    (lowerAscii cs).head? = (lowerAscii word).head? := by
  have ⟨front, hs, hl⟩ := afterKeyword?_eq_some h
  rw [hs, lowerAscii, List.map_append, ← lowerAscii, hl, List.head?_append_of_ne_nil]
  simpa [lowerAscii] using hn

theorem until?_append {d : Char} {text : List Char} (h : d ∉ text) (rest : List Char) :
    until? d (text ++ d :: rest) = some (text, rest) := by
  have hp : ∀ c ∈ text, (c != d) = true := fun c hc => bne_iff_ne.mpr fun he => h (he ▸ hc)
  simp [until?, List.dropWhile_append_of_pos hp, List.takeWhile_append_of_pos hp]

theorem until?_of_notMem {d : Char} (h : d ∉ cs) : until? d cs = none := by
  have hp : ∀ c ∈ cs, (c != d) = true := fun c hc => bne_iff_ne.mpr fun he => h (he ▸ hc)
  rw [until?, List.dropWhile_eq_nil_iff.mpr hp]

-- What stands before the first `d` is found without looking further.
theorem until?_append_of_mem {d : Char} (h : d ∈ cs) (text : List Char) :
    (until? d (cs ++ text)).map Prod.fst = (until? d cs).map Prod.fst := by
  obtain ⟨front, rest, rfl, hn⟩ := List.eq_append_cons_of_mem h
  simp [until?_append hn]

theorem ofNat_ne {n : Nat} {d : Char} (hn : d.toNat < n) (h0 : d.toNat ≠ 0) : Char.ofNat n ≠ d := by
  rintro rfl
  by_cases hv : n.isValidChar
  case pos =>
    have he : Char.ofNat n = Char.ofNatAux n hv := dif_pos hv
    rw [he] at hn
    exact Nat.lt_irrefl n hn
  case neg =>
    have he : Char.ofNat n = '\x00' := dif_neg hv
    rw [he] at h0
    exact h0 rfl

theorem eq_of_toLower_eq {c d : Char} (hd : d.toNat < 'A'.toNat) (h : c.toLower = d) : c = d := by
  by_cases hc : c.val ≥ 'A'.val ∧ c.val ≤ 'Z'.val
  case neg => exact (dif_neg hc).symm.trans h
  case pos =>
    have hl : c.toLower.toNat = (c.val + 32).toNat := congrArg Char.toNat (dif_pos hc)
    have hlow  : 65 ≤ c.val.toNat := UInt32.le_iff_toNat_le.mp hc.left
    have hhigh : c.val.toNat ≤ 90 := UInt32.le_iff_toNat_le.mp hc.right
    have hadd  : (c.val + 32).toNat = (c.val.toNat + 32) % 2 ^ 32 := UInt32.toNat_add ..
    have hd : d.toNat < 65 := hd
    rw [← h] at hd
    omega

theorem le_target_of_mem_foldRuns : ∀ r ∈ foldRuns, 'a'.toNat ≤ r.target := by
  decide +kernel

-- Only letters are folded, and to letters, so a character before them in the alphabet stands for itself.
theorem eq_of_fold_eq {c d : Char} (h0 : d.toNat ≠ 0) (hd : d.toNat < 'A'.toNat) (h : fold c = d) :
    c = d := by
  have ha : d.toNat < 'a'.toNat := Nat.lt_trans hd (by decide)
  rw [fold] at h
  split at h
  case isTrue  => exact eq_of_toLower_eq hd h
  case isFalse =>
    split at h
    case h_2      => exact h
    case h_1 r hr =>
      have := le_target_of_mem_foldRuns r <| List.mem_of_find?_eq_some hr
      exact absurd h <| ofNat_ne (by omega) h0

end ScriptMaps.Text
