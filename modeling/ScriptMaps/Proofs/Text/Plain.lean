import Mathlib.Data.List.Basic
import ScriptMaps.Proofs.Text.Runs

namespace ScriptMaps.Text

def isPlain (c : Char) : Bool :=
  c.isAlphanum || c == '_'

-- The numeral of a number.
def digits (n : Nat) : List Char :=
  Nat.toDigits 10 n

variable {c d : Char} {cs : List Char} {m n : Nat}

theorem toNat_lt_of_isPlain (h : isPlain c) : c.toNat < 0x80 := by
  have hlow {high : Char} (hh : high.toNat < 0x80) (hc : c.val ≤ high.val) : c.toNat < 0x80 :=
    Nat.lt_of_le_of_lt (UInt32.le_iff_toNat_le.mp hc) hh
  have h : ((c.isUpper || c.isLower) || c.isDigit) || c == '_' := h
  rw [Bool.or_eq_true, Bool.or_eq_true, Bool.or_eq_true] at h
  obtain ((h | h) | h) | h := h
  case inl.inl.inl => exact hlow (by decide) (of_decide_eq_true h).right
  case inl.inl.inr => exact hlow (by decide) (of_decide_eq_true (Bool.and_eq_true_iff.mp h).right)
  case inl.inr     => exact hlow (by decide) (of_decide_eq_true (Bool.and_eq_true_iff.mp h).right)
  case inr         => exact eq_of_beq h ▸ (by decide)

-- What holds of the plain characters is looked up among the first ones.
theorem of_isPlain {p : Char → Bool} (hp : ∀ n < 0x80, isPlain (Char.ofNat n) → p (Char.ofNat n))
    (h : isPlain c) : p c := by
  have hc := hp c.toNat (toNat_lt_of_isPlain h)
  rw [c.ofNat_toNat] at hc
  exact hc h

theorem isPlain_toLower (h : isPlain c) : isPlain c.toLower :=
  of_isPlain (p := fun c => isPlain c.toLower) (by decide +kernel) h

theorem le_toNat_of_isPlain (h : isPlain c) : 0x20 ≤ c.toNat :=
  of_decide_eq_true <| of_isPlain (p := fun c => 0x20 ≤ c.toNat) (by decide +kernel) h

theorem isWord_of_isPlain (h : isPlain c) : isWord c :=
  (if_pos (toNat_lt_of_isPlain h)).trans h

theorem not_isBlank_of_isPlain (h : isPlain c) : ¬isBlank c :=
  fun hb => not_isWord_of_isBlank hb (isWord_of_isPlain h)

theorem fold_of_isPlain (h : isPlain c) : fold c = c.toLower :=
  if_pos (toNat_lt_of_isPlain h)

theorem ne_of_isPlain (h : isPlain c) (hd : ¬isPlain d) : c ≠ d :=
  fun he => hd (he ▸ h)

theorem toList_toString (n : Nat) : (toString n).toList = digits n :=
  Nat.toList_repr

theorem isDigit_of_mem_digits (h : c ∈ digits n) : c.isDigit :=
  Nat.isDigit_of_mem_toDigits (by decide) (by decide) h

theorem isPlain_of_mem_digits (h : c ∈ digits n) : isPlain c := by
  simp [isPlain, Char.isAlphanum, isDigit_of_mem_digits h]

theorem lowerAscii_digits (n : Nat) : lowerAscii (digits n) = digits n := by
  have hlower : ∀ c ∈ digits n, c.toLower = id c := by
    intro c hc
    have hl := of_isPlain (p := fun c => !c.isDigit || c.toLower == c) (by decide +kernel)
      (isPlain_of_mem_digits hc)
    simpa [isDigit_of_mem_digits hc] using hl
  rw [lowerAscii, List.map_congr_left hlower, List.map_id]

theorem digits_inj : digits m = digits n ↔ m = n := by
  refine ⟨fun h => ?_, congrArg digits⟩
  rw [← Nat.ofDigitChars_ten_toDigits (n := m), ← Nat.ofDigitChars_ten_toDigits (n := n)]
  exact congrArg (Nat.ofDigitChars 10 · 0) h

-- Two numerals, as they stand in the names of Maps and functions.
def numbers (m n : Nat) : List Char :=
  digits m ++ '_' :: digits n

theorem isPlain_numbers (m n : Nat) : ∀ c ∈ numbers m n, isPlain c := by
  rw [numbers, List.forall_mem_append, List.forall_mem_cons]
  exact ⟨fun _ => isPlain_of_mem_digits, by decide, fun _ => isPlain_of_mem_digits⟩

-- The first numeral ends at the first underscore.
theorem sameAscii_numbers_iff {m' n' : Nat} :
    sameAscii (numbers m n) (numbers m' n') ↔ m = m' ∧ n = n' := by
  have hlower (m n : Nat) : lowerAscii (numbers m n) = numbers m n := by
    rw [numbers, lowerAscii, List.map_append, List.map_cons, ← lowerAscii, ← lowerAscii, lowerAscii_digits,
      lowerAscii_digits]
    rfl
  rw [sameAscii_iff, hlower, hlower]
  constructor
  case mp =>
    intro h
    obtain ⟨hm, hn⟩ := eq_of_append_cons Nat.underscore_not_in_toDigits Nat.underscore_not_in_toDigits h
    exact ⟨digits_inj.mp hm, digits_inj.mp hn⟩
  case mpr =>
    rintro ⟨rfl, rfl⟩
    rfl

theorem sameAscii_append_left (front a b : List Char) :
    sameAscii (front ++ a) (front ++ b) = sameAscii a b := by
  simp [sameAscii, lowerAscii]

theorem sameAscii_cons (c : Char) (a b : List Char) : sameAscii (c :: a) (c :: b) = sameAscii a b :=
  sameAscii_append_left [c] a b

end ScriptMaps.Text
