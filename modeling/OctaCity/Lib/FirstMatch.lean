/-
  OctaCity.Lib.FirstMatch

  The first row of an ordered table that matches a predicate.  A second
  predicate holds of it exactly when every matching row without it comes after
  a matching row with it.
-/
import OctaCity.Lib.Table
import OctaCity.Lib.Result

namespace OctaCity.Lib.Table

variable {α κ : Type} [LinearOrder κ] {key : α → κ} {t : Table key} {p : α → Bool}

/-- Values of an ordered map, inserted in turn; a key seen before is an error. -/
def collect {ε : Type} (taken : α → ε) (rows : List α) : Except ε (Table key) :=
  insertAll taken empty rows

theorem mem_collect {ε : Type} {taken : α → ε} {rows : List α}
    (h : collect taken rows = .ok t) {a : α} : a ∈ t.rows ↔ a ∈ rows := by
  rw [mem_insertAll h]
  simp [empty]

/-- In a sorted list the first match comes before every other one. -/
theorem rel_of_find? {rows : List α} {r : α → α → Prop} (hsort : rows.Pairwise r) {a b : α}
    (hfirst : rows.find? p = some a) (hb : b ∈ rows) (hmatch : p b = true) (hne : b ≠ a) : r a b := by
  obtain ⟨-, before, after, hrows, hearl⟩ := List.find?_eq_some_iff_append.mp hfirst
  rw [hrows] at hb hsort
  rcases List.mem_append.mp hb with hb | hb
  · have := hearl b hb
    simp [hmatch] at this
  · have hb : b ∈ after := (List.mem_cons.mp hb).resolve_left hne
    exact List.rel_of_pairwise_cons (List.pairwise_append.mp hsort).2.1 hb

theorem first_match_iff {q : α → Prop} {a : α} (hfirst : t.rows.find? p = some a) :
    q a ↔ ∀ b ∈ t.rows, p b = true → ¬q b → ∃ c ∈ t.rows, p c = true ∧ q c ∧ key c < key b := by
  have ha : a ∈ t.rows := List.mem_of_find?_eq_some hfirst
  have hmatch : p a = true := List.find?_some hfirst
  constructor
  · intro hq b hb hpb hnot
    have hne : b ≠ a := by
      rintro rfl
      exact hnot hq
    exact ⟨a, ha, hmatch, hq, rel_of_find? t.ordered hfirst hb hpb hne⟩
  · intro hlater
    by_contra hnot
    obtain ⟨c, hc, hpc, hqc, hlt⟩ := hlater a ha hmatch hnot
    -- The row before the first match would have been found instead.
    have hne : c ≠ a := by
      rintro rfl
      exact hnot hqc
    exact lt_asymm hlt (rel_of_find? t.ordered hfirst hc hpc hne)

end OctaCity.Lib.Table
