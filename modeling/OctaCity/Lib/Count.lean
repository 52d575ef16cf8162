/-
  OctaCity.Lib.Count

  Counting the elements of a list that satisfy a predicate, and sums over
  covered sets.
-/
import Mathlib.Algebra.Group.Action.Defs
import Mathlib.Algebra.GroupWithZero.Nat
import Mathlib.Algebra.Order.BigOperators.Group.Finset

namespace OctaCity.Lib

open List

variable {α : Type}

/-- A stronger predicate that misses one element counts strictly fewer. -/
theorem countP_lt_of_imp {p q : α → Bool} {l : List α} (himp : ∀ a ∈ l, p a = true → q a = true)
    (hmiss : ∃ a ∈ l, p a = false ∧ q a = true) : l.countP p < l.countP q := by
  induction l with
  | nil =>
    obtain ⟨a, ha, -⟩ := hmiss
    cases ha
  | cons b rest ih =>
    have hrest : ∀ a ∈ rest, p a = true → q a = true :=
      fun a ha => himp a (mem_cons_of_mem _ ha)
    have hle : rest.countP p ≤ rest.countP q := countP_mono_left hrest
    have hb := himp b (mem_cons_self ..)
    rw [countP_cons, countP_cons]
    obtain ⟨a, ha, hpa, hqa⟩ := hmiss
    rcases mem_cons.mp ha with rfl | ha
    · simp only [hpa, hqa, Bool.false_eq_true, if_false, if_true]
      omega
    · have hlt := ih hrest ⟨a, ha, hpa, hqa⟩
      by_cases hp : p b = true
      · simp only [hp, hb hp, if_true]
        omega
      · simp only [hp, Bool.false_eq_true, if_false]
        split <;> omega

/-- A key occurs once among rows with distinct keys. -/
theorem countP_key_eq_one {κ : Type} [DecidableEq κ] {field : α → κ} {rows : List α}
    (hnodup : (rows.map field).Nodup) {a : α} (ha : a ∈ rows) :
    rows.countP (fun b => field b = field a) = 1 := by
  have hcount := count_eq_one_of_mem hnodup (mem_map_of_mem ha)
  rw [count_eq_countP, countP_map] at hcount
  exact hcount

/-- A predicate that holds of one row only is counted once. -/
theorem countP_eq_one_of_unique {p : α → Bool} {rows : List α} (hnodup : rows.Nodup) {a : α}
    (ha : a ∈ rows) (hp : p a = true) (huniq : ∀ b ∈ rows, p b = true → b = a) :
    rows.countP p = 1 := by
  have hfilt : rows.filter p = [a] := by
    refine perm_singleton.mp ((perm_ext_iff_of_nodup (hnodup.filter _) ?_).mpr ?_)
    · exact nodup_singleton _
    · intro b
      rw [mem_filter, mem_singleton]
      constructor
      · exact fun h => huniq b h.1 h.2
      · rintro rfl
        exact ⟨ha, hp⟩
  rw [countP_eq_length_filter, hfilt, length_singleton]

/-- A row with a new key keeps the keys distinct. -/
theorem nodup_map_concat {κ : Type} {field : α → κ} {rows : List α} {a : α} :
    ((rows ++ [a]).map field).Nodup ↔
      (rows.map field).Nodup ∧ ∀ row ∈ rows, field row ≠ field a := by
  rw [map_append, nodup_append]
  simp only [map_cons, map_nil, nodup_singleton, true_and, mem_singleton,
    forall_eq, mem_map, forall_exists_index, and_imp, forall_apply_eq_imp_iff₂]

theorem mem_concat {rows : List α} {a b : α} : b ∈ rows ++ [a] ↔ b ∈ rows ∨ a = b := by
  rw [mem_append, mem_singleton, @eq_comm _ b]

theorem forall_mem_concat {p : α → Prop} {rows : List α} {a : α} :
    (∀ row ∈ rows ++ [a], p row) ↔ (∀ row ∈ rows, p row) ∧ p a := by
  simp [or_imp, forall_and]

/-- A row with a new key, or with none, keeps the keyed rows apart. -/
theorem unique_concat {κ : Type} {key : α → Option κ} {rows : List α} {a : α}
    (hold : ∀ left ∈ rows, ∀ right ∈ rows, ∀ k, key left = some k → key right = some k →
      left = right) (hnew : ∀ k, key a = some k → ∀ row ∈ rows, key row ≠ some k) :
    ∀ left ∈ rows ++ [a], ∀ right ∈ rows ++ [a], ∀ k, key left = some k → key right = some k →
      left = right := by
  refine forall_mem_concat.mpr ⟨fun left hleft => forall_mem_concat.mpr ⟨hold left hleft, ?_⟩,
    forall_mem_concat.mpr ⟨fun right hright => ?_, fun _ _ _ => rfl⟩⟩
  · exact fun k hl hr => absurd hl (hnew k hr left hleft)
  · exact fun k hl hr => absurd hr (hnew k hl right hright)

/-! ## Sums -/

/-- The sum over the elements of a list, each taken once. -/
theorem sum_toFinset_le [DecidableEq α] (l : List α) (w : α → Nat) :
    ∑ a ∈ l.toFinset, w a ≤ (l.map w).sum := by
  rw [Finset.sum_list_map_count]
  refine Finset.sum_le_sum fun a ha => ?_
  rw [smul_eq_mul]
  exact Nat.le_mul_of_pos_left _ (count_pos_iff.mpr (mem_toFinset.mp ha))

/-- What is covered weighs no more than the parts of the cover. -/
theorem sum_le_sum_cover {β : Type} {s : Finset α} {t : Finset β} (r : α → β → Prop)
    [∀ a b, Decidable (r a b)] (w : α → Nat) (hcover : ∀ a ∈ s, ∃ b ∈ t, r a b) :
    ∑ a ∈ s, w a ≤ ∑ b ∈ t, ∑ a ∈ s.filter (fun a => r a b), w a := by
  simp only [Finset.sum_filter]
  rw [Finset.sum_comm]
  refine Finset.sum_le_sum fun a ha => ?_
  obtain ⟨b, hb, hr⟩ := hcover a ha
  calc w a = if r a b then w a else 0 := by rw [if_pos hr]
    _ ≤ ∑ b ∈ t, if r a b then w a else 0 :=
      Finset.single_le_sum (f := fun b => if r a b then w a else 0) (fun _ _ => Nat.zero_le _) hb

end OctaCity.Lib
