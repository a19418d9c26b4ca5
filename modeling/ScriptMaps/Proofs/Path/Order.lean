import ScriptMaps.Proofs.Path.Table

namespace ScriptMaps

namespace Component

variable {a b c : Component}

theorem lt_iff : a < b ↔ a.rank < b.rank ∨ a.rank = b.rank ∧ a.text < b.text :=
  .rfl

-- The kinds other than names have one text each.
theorem eq_of_rank_of_text (hr : a.rank = b.rank) (ht : a.text = b.text) : a = b := by
  cases a <;> cases b <;> simp_all [rank, text]

instance : Std.Asymm fun a b : Component => a < b where
  asymm a b hab hba := by
    obtain hab | ⟨hr, hab⟩ := lt_iff.mp hab
    all_goals obtain hba | ⟨_, hba⟩ := lt_iff.mp hba <;> try omega
    exact String.lt_asymm hab hba

instance : Std.Trichotomous fun a b : Component => a < b where
  trichotomous a b hab hba := by
    rw [lt_iff] at hab hba
    have hr : a.rank = b.rank := by omega
    have hab : b.text ≤ a.text := String.not_lt.mp fun h => hab (.inr ⟨hr, h⟩)
    have hba : a.text ≤ b.text := String.not_lt.mp fun h => hba (.inr ⟨hr.symm, h⟩)
    exact eq_of_rank_of_text hr (String.le_antisymm hba hab)

theorem lt_trans (hab : a < b) (hbc : b < c) : a < c := by
  rw [lt_iff] at hab hbc ⊢
  obtain hab | ⟨hr, hab⟩ := hab
  case inl => omega
  case inr =>
    obtain hbc | ⟨hr', hbc⟩ := hbc
    case inl => omega
    case inr => exact .inr ⟨hr.trans hr', String.lt_trans hab hbc⟩

instance : Trans (fun a b : Component => a < b) (fun a b => a < b) (fun a b => a < b) :=
  ⟨lt_trans⟩

end Component

namespace Path

variable {α : Type} {p q : Path}

theorem precedes_iff : p.precedes q ↔ p.components < q.components ∨ p.components = q.components := by
  rw [precedes, Bool.not_eq_true', decide_eq_false_iff_not, List.not_lt, List.le_iff_lt_or_eq]

theorem precedes_trans {r : Path} (hpq : p.precedes q) (hqr : q.precedes r) : p.precedes r := by
  rw [precedes_iff] at hpq hqr ⊢
  obtain hpq | hpq := hpq
  case inr => rwa [hpq]
  case inl =>
    obtain hqr | hqr := hqr
    case inl => exact .inl (List.lt_trans hpq hqr)
    case inr => exact .inl (hqr ▸ hpq)

theorem precedes_total (p q : Path) : p.precedes q || q.precedes p := by
  have h := List.le_total p.components q.components
  simpa [precedes, List.not_lt] using h

theorem pairwise_mergeSort_lt {t : PathTable α} (h : t.Distinct) :
    (t.entries.mergeSort fun e e' => e.1.precedes e'.1).Pairwise fun e e' =>
      e.1.components < e'.1.components := by
  let sorted := t.entries.mergeSort fun e e' => e.1.precedes e'.1
  have hsorted : sorted.Pairwise fun e e' => e.1.precedes e'.1 := by
    refine List.pairwise_mergeSort ?trans ?total t.entries
    case trans => exact fun _ _ _ => precedes_trans
    case total => exact fun e e' => precedes_total e.1 e'.1
  have hdistinct : PathTable.Distinct ⟨sorted⟩ := h.perm (List.mergeSort_perm ..)
  refine hsorted.imp₂ ?_ hdistinct
  intro e e' hp hne
  exact (precedes_iff.mp hp).resolve_right fun he => hne (beq_iff.mpr he)

end Path

end ScriptMaps
