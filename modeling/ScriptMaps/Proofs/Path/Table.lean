import ScriptMaps.Path.Table

namespace ScriptMaps.PathTable

variable {α : Type} {t : PathTable α} {p q : Path} {a : α}

theorem contains_eq_false : t.contains p = false ↔ t.find? p = none := by
  simp [contains]

theorem entries_insert (h : t.contains p = false) :
    (t.insert p a).entries = t.entries ++ [(p, a)] := by
  simp [insert, h]

-- In place of a value, the new one is found where the old one was, at the path it was kept with.
theorem find?_entries_insert (h : t.contains p = true) :
    (t.insert p a).entries.find? (·.1 == q) =
      (t.entries.find? (·.1 == q)).map fun e => if e.1 == p then (e.1, a) else e := by
  have hf : (fun e : Path × α => (if e.1 == p then (e.1, a) else e).1 == q) = (·.1 == q) := by
    funext e
    split <;> rfl
  simp only [insert, h, ↓reduceIte, List.find?_map, Function.comp_def, hf]

theorem find?_insert_self : (t.insert p a).find? p = some a := by
  cases h : t.contains p
  case false =>
    have hn : t.entries.find? (·.1 == p) = none := by
      simpa [find?] using contains_eq_false.mp h
    simp [find?, entries_insert h, hn, Path.beq_iff.mpr rfl]
  case true =>
    have hs : (t.entries.find? (·.1 == p)).isSome := by rwa [contains, find?, Option.isSome_map] at h
    have ⟨e, he⟩ := Option.isSome_iff_exists.mp hs
    have hp : e.1 == p := by simpa using List.find?_some he
    simp [find?, find?_entries_insert h, he, hp]

theorem find?_insert_of_ne (h : ¬p == q) : (t.insert p a).find? q = t.find? q := by
  cases hc : t.contains p
  case false => simp [find?, entries_insert hc, List.find?_append, h]
  case true =>
    rw [find?, find?_entries_insert hc, find?]
    cases he : t.entries.find? (·.1 == q)
    case none   => rfl
    case some e =>
      have hq : e.1 == q := by simpa using List.find?_some he
      have hn : ¬e.1 == p := by
        intro hp
        exact h <| Path.beq_iff.mpr <| (Path.beq_iff.mp hp).symm.trans (Path.beq_iff.mp hq)
      simp [hn]

theorem find?_erase_self (h : p == q) : (t.erase p).find? q = none := by
  rw [find?, Option.map_eq_none_iff, List.find?_eq_none]
  intro e he hq
  have hp := (List.mem_filter.mp he).right
  rw [Bool.not_eq_true', ← Bool.not_eq_true] at hp
  exact hp <| Path.beq_iff.mpr <| (Path.beq_iff.mp hq).trans (Path.beq_iff.mp h).symm

theorem find?_erase_of_ne (h : ¬p == q) : (t.erase p).find? q = t.find? q := by
  rw [find?, erase, List.find?_filter, find?]
  congr 2
  funext e
  cases hq : e.1 == q
  case false => simp
  case true  =>
    have hp : ¬e.1 == p := fun hp =>
      h <| Path.beq_iff.mpr <| (Path.beq_iff.mp hp).symm.trans (Path.beq_iff.mp hq)
    simp [hp]

theorem contains_of_mem {e : Path × α} (h : e ∈ t.entries) : t.contains e.1 := by
  rw [contains, find?, Option.isSome_map, List.find?_isSome]
  exact ⟨e, h, Path.beq_iff.mpr rfl⟩

-- Entries that come after all others count where the others have none.
theorem find?_of_entries_append {t' : PathTable α} {added : List (Path × α)}
    (h : t'.entries = t.entries ++ added) :
    t'.find? p = (t.find? p).or ((added.find? (·.1 == p)).map (·.2)) := by
  rw [find?, h, List.find?_append, Option.map_or, find?]

theorem find?_congr (h : p == q) : t.find? p = t.find? q := by
  have hf : (fun e : Path × α => e.1 == p) = (·.1 == q) := by
    funext e
    exact congrArg (e.1.components == ·) (Path.beq_iff.mp h)
  rw [find?, hf, find?]

theorem find?_cons {e : Path × α} {entries : List (Path × α)} :
    (PathTable.mk (e :: entries)).find? p = if e.1 == p then some e.2 else (mk entries).find? p := by
  rw [find?, List.find?_cons]
  cases e.1 == p <;> rfl

-- No path has two values.
def Distinct (t : PathTable α) : Prop :=
  t.entries.Pairwise fun e e' => ¬e.1 == e'.1

theorem Distinct.insert (h : t.Distinct) (p : Path) (a : α) : (t.insert p a).Distinct := by
  cases hc : t.contains p
  case false =>
    rw [Distinct, entries_insert hc]
    refine List.pairwise_append.mpr ⟨h, List.pairwise_singleton .., ?_⟩
    intro e he e' he' hp
    cases List.mem_singleton.mp he'
    have hc' : t.contains p := by
      rw [contains, ← find?_congr hp]
      exact contains_of_mem he
    simp [hc] at hc'
  case true =>
    simp only [Distinct, PathTable.insert, hc, ↓reduceIte, List.pairwise_map]
    refine h.imp ?_
    intro e e' hn
    split <;> split <;> exact hn

theorem Distinct.erase (h : t.Distinct) (p : Path) : (t.erase p).Distinct :=
  h.filter _

theorem Distinct.find?_of_mem (h : t.Distinct) {e : Path × α} (he : e ∈ t.entries) :
    t.find? e.1 = some e.2 := by
  obtain ⟨entries⟩ := t
  induction entries
  case nil => cases he
  case cons e' entries hi =>
    have ⟨hn, h⟩ := List.pairwise_cons.mp h
    rw [find?_cons]
    obtain rfl | he := List.mem_cons.mp he
    case inl => rw [if_pos (Path.beq_iff.mpr rfl)]
    case inr => rw [if_neg (hn e he), hi h he]

theorem Distinct.find?_eq_some_iff (h : t.Distinct) {a : α} :
    t.find? p = some a ↔ ∃ e ∈ t.entries, e.1 == p ∧ e.2 = a := by
  constructor
  case mp =>
    intro hf
    have ⟨e, he, ha⟩ := Option.map_eq_some_iff.mp hf
    exact ⟨e, List.mem_of_find?_eq_some he, by simpa using List.find?_some he, ha⟩
  case mpr =>
    rintro ⟨e, he, hp, rfl⟩
    rw [← find?_congr hp, h.find?_of_mem he]

theorem Distinct.perm {t' : PathTable α} (h : t.Distinct) (hp : t'.entries.Perm t.entries) : t'.Distinct := by
  refine (hp.pairwise_iff ?_).mpr h
  intro e e' hn he
  exact hn <| Path.beq_iff.mpr (Path.beq_iff.mp he).symm

-- The order of entries makes no difference.
theorem Distinct.find?_perm {t' : PathTable α} (h : t.Distinct) (hp : t'.entries.Perm t.entries) (p : Path) :
    t'.find? p = t.find? p := by
  ext a
  rw [h.find?_eq_some_iff, (h.perm hp).find?_eq_some_iff]
  simp only [hp.mem_iff]

-- Made one after the other, the entries of a layer count before those that were there.
theorem find?_foldl_insert {β : Type} {layer : PathTable β} (h : layer.Distinct) (f : β → α) :
    (layer.entries.foldl (fun t e => t.insert e.1 (f e.2)) t).find? q =
      ((layer.find? q).map f).or (t.find? q) := by
  obtain ⟨entries⟩ := layer
  induction entries generalizing t
  case nil => rfl
  case cons e entries hi =>
    have ⟨hn, h⟩ := List.pairwise_cons.mp h
    rw [List.foldl_cons, hi h]
    by_cases hq : e.1 == q
    case neg => rw [find?_insert_of_ne hq, find?_cons, if_neg hq]
    case pos =>
      have hnone : (mk entries).find? q = none := by
        simp only [find?, Option.map_eq_none_iff, List.find?_eq_none]
        intro e' he' hq'
        exact hn e' he' <| Path.beq_iff.mpr <| (Path.beq_iff.mp hq).trans (Path.beq_iff.mp hq').symm
      rw [hnone, ← find?_congr hq, find?_insert_self, find?_cons, if_pos hq]
      rfl

end ScriptMaps.PathTable
