/-
  OctaCity.Lib.PagedDeletion

  Rows that refer to each other are deleted page by page.  A pass runs the
  statements of a fixed list until one has deleted something.
-/
import Mathlib.Data.List.Nodup
import Mathlib.Data.List.Perm.Basic

namespace OctaCity.Lib

open List

/-- A statement that deletes a page of the rows it selects. -/
structure DeleteStep (α : Type) where
  selects : α → Bool
  blockedBy : α → α → Bool

namespace DeleteStep

variable {α : Type} (step : DeleteStep α) (limit : Nat) (rows : List α)

/-- The selected rows that no row blocks. -/
def deletable : List α :=
  rows.filter fun row => step.selects row && !rows.any (step.blockedBy row)

def page : List α :=
  (step.deletable rows).take limit

variable {step limit rows}

theorem mem_deletable {row : α} : row ∈ step.deletable rows ↔
    row ∈ rows ∧ step.selects row = true ∧ ∀ other ∈ rows, step.blockedBy row other = false := by
  simp [deletable]

theorem deletable_of_mem_page {row : α} (h : row ∈ step.page limit rows) :
    row ∈ step.deletable rows :=
  mem_of_mem_take h

theorem page_length_le : (step.page limit rows).length ≤ limit := by
  rw [page, length_take]
  exact Nat.min_le_left _ _

/-- A page of at least one row is empty only when no row can be deleted. -/
theorem page_eq_nil (hlimit : 0 < limit) :
    step.page limit rows = [] ↔ step.deletable rows = [] := by
  rw [page, take_eq_nil_iff]
  exact or_iff_right (Nat.ne_of_gt hlimit)

end DeleteStep

section

variable {α : Type} [DecidableEq α] (refers : α → α → Bool) (limit : Nat)

/-- The rows without a page, unless a row that stays refers to the page. -/
def removePage (page rows : List α) : Option (List α) :=
  let rest := rows.filter (· ∉ page)
  if rest.any fun other => page.any (refers other) then none else some rest

/-- The rows after one pass and the number of those it has deleted. -/
def deletePass : List (DeleteStep α) → List α → Option (List α × Nat)
  | [], rows => some (rows, 0)
  | step :: steps, rows =>
    match removePage refers (step.page limit rows) rows with
    | none => none
    | some rest =>
      if (step.page limit rows).length ≠ 0 then some (rest, (step.page limit rows).length)
      else deletePass steps rows

/-- The rows after a number of passes. -/
def deletePasses (steps : List (DeleteStep α)) : Nat → List α → Option (List α)
  | 0, rows => some rows
  | n + 1, rows =>
    (deletePass refers limit steps rows).bind fun (rest, _) => deletePasses steps n rest

end

/-- Whether some statement selects a row. -/
def Selected {α : Type} (steps : List (DeleteStep α)) (row : α) : Prop :=
  ∃ step ∈ steps, step.selects row = true

instance {α : Type} (steps : List (DeleteStep α)) (row : α) : Decidable (Selected steps row) :=
  inferInstanceAs (Decidable (∃ step ∈ steps, _))

/-- Selected rows are blocked by selected rows only, and in some order. -/
def BlockedInOrder {α : Type} (steps : List (DeleteStep α)) (rows : List α) : Prop :=
  ∃ rank : α → Nat, ∀ step ∈ steps, ∀ row ∈ rows, step.selects row = true →
    ∀ other ∈ rows, step.blockedBy row other = true → Selected steps other ∧ rank other < rank row

section

variable {α : Type} [DecidableEq α] {refers : α → α → Bool} {limit n : Nat}
variable {steps : List (DeleteStep α)} {page rows rest : List α}

/-! ## A pass -/

theorem removePage_eq_some : removePage refers page rows = some rest ↔
    rest = rows.filter (· ∉ page) ∧
      ∀ other ∈ rows, other ∉ page → ∀ row ∈ page, refers other row = false := by
  rw [removePage]
  by_cases h : ((rows.filter (· ∉ page)).any fun other => page.any (refers other)) = true
  · simp only [h, if_true]
    constructor
    · intro hnone
      cases hnone
    · rintro ⟨-, hrefers⟩
      obtain ⟨other, hother, hany⟩ := any_eq_true.mp h
      obtain ⟨row, hrow, href⟩ := any_eq_true.mp hany
      have hother := mem_filter.mp hother
      rw [hrefers other hother.1 (of_decide_eq_true hother.2) row hrow] at href
      cases href
  · simp only [h, Bool.false_eq_true, if_false, Option.some.injEq]
    refine ⟨fun hrest => ⟨hrest.symm, fun other hother hpage row hrow => ?_⟩,
      fun hrest => hrest.1.symm⟩
    by_contra href
    refine h (any_eq_true.mpr ⟨other, ?_, any_eq_true.mpr ⟨row, hrow, ?_⟩⟩)
    · exact mem_filter.mpr ⟨hother, decide_eq_true hpage⟩
    · exact Bool.not_eq_false _ ▸ href

theorem removePage_nil : removePage refers [] rows = some rows :=
  removePage_eq_some.mpr ⟨by simp, fun _ _ _ _ hrow => nomatch hrow⟩

/-- A pass deletes the page of the first statement that has one. -/
theorem deletePass_cases (hlimit : 0 < limit) : ((∀ step ∈ steps, step.deletable rows = []) ∧
      deletePass refers limit steps rows = some (rows, 0)) ∨
    ∃ before step after, steps = before ++ step :: after ∧
      (∀ earlier ∈ before, earlier.deletable rows = []) ∧ step.deletable rows ≠ [] ∧
      deletePass refers limit steps rows =
        (removePage refers (step.page limit rows) rows).map (·, (step.page limit rows).length) := by
  induction steps with
  | nil => exact .inl ⟨(fun _ hstep => nomatch hstep), rfl⟩
  | cons step steps ih =>
    by_cases hpage : step.deletable rows = []
    · have hnil : step.page limit rows = [] := (DeleteStep.page_eq_nil hlimit).mpr hpage
      have hskip : deletePass refers limit (step :: steps) rows =
          deletePass refers limit steps rows := by
        simp [deletePass, hnil, removePage_nil]
      rw [hskip]
      obtain ⟨hidle, hpass⟩ | ⟨before, next, after, hsplit, hbef, hnext, hpass⟩ := ih
      · exact .inl ⟨forall_mem_cons.mpr ⟨hpage, hidle⟩, hpass⟩
      · exact .inr ⟨step :: before, next, after, by rw [hsplit]; rfl,
          forall_mem_cons.mpr ⟨hpage, hbef⟩, hnext, hpass⟩
    · have hlen : (step.page limit rows).length ≠ 0 := fun hzero =>
        hpage ((DeleteStep.page_eq_nil hlimit).mp (length_eq_zero_iff.mp hzero))
      refine .inr ⟨[], step, steps, rfl, (fun _ hstep => nomatch hstep), hpage, ?_⟩
      rw [deletePass]
      cases removePage refers (step.page limit rows) rows with
      | none => rfl
      | some rest => exact if_pos hlen

/-- A pass deletes nothing, or the page of one statement. -/
theorem deletePass_eq_some (hlimit : 0 < limit)
    (h : deletePass refers limit steps rows = some (rest, n)) :
    (rest = rows ∧ n = 0 ∧ ∀ step ∈ steps, step.deletable rows = []) ∨
    ∃ before step after, steps = before ++ step :: after ∧
      (∀ earlier ∈ before, earlier.deletable rows = []) ∧ step.deletable rows ≠ [] ∧
      rest = rows.filter (· ∉ step.page limit rows) ∧ n = (step.page limit rows).length ∧
      ∀ other ∈ rows, other ∉ step.page limit rows →
        ∀ row ∈ step.page limit rows, refers other row = false := by
  obtain ⟨hidle, hpass⟩ | ⟨before, step, after, hsplit, hbef, hstep, hpass⟩ :=
    @deletePass_cases α _ refers limit steps rows hlimit
  · cases h.symm.trans hpass
    exact .inl ⟨rfl, rfl, hidle⟩
  · rw [h] at hpass
    obtain ⟨left, hremove, hpair⟩ := Option.map_eq_some_iff.mp hpass.symm
    cases hpair
    have hremove := removePage_eq_some.mp hremove
    exact .inr ⟨before, step, after, hsplit, hbef, hstep, hremove.1, rfl, hremove.2⟩

theorem deletePass_sublist (hlimit : 0 < limit)
    (h : deletePass refers limit steps rows = some (rest, n)) : rest.Sublist rows := by
  obtain ⟨rfl, -⟩ | ⟨_, _, _, -, -, -, rfl, -⟩ := deletePass_eq_some hlimit h
  · exact List.Sublist.refl _
  · exact filter_sublist

theorem deletePass_le_limit (hlimit : 0 < limit)
    (h : deletePass refers limit steps rows = some (rest, n)) : n ≤ limit := by
  obtain ⟨-, rfl, -⟩ | ⟨_, _, _, -, -, -, -, rfl, -⟩ := deletePass_eq_some hlimit h
  · exact Nat.zero_le _
  · exact DeleteStep.page_length_le

theorem deletePass_selected (hlimit : 0 < limit)
    (h : deletePass refers limit steps rows = some (rest, n)) {row : α} (hrow : row ∈ rows)
    (hrest : row ∉ rest) : ∃ step ∈ steps, row ∈ step.deletable rows := by
  obtain ⟨rfl, -⟩ | ⟨_, step, _, hsplit, -, -, rfl, -⟩ := deletePass_eq_some hlimit h
  · exact (hrest hrow).elim
  · have hpage : row ∈ step.page limit rows := by
      by_contra hpage
      exact hrest (mem_filter.mpr ⟨hrow, decide_eq_true hpage⟩)
    refine ⟨step, ?_, DeleteStep.deletable_of_mem_page hpage⟩
    rw [hsplit]
    exact mem_append_right _ mem_cons_self

/-- A pass that deletes nothing has found no row to delete. -/
theorem deletePass_zero (hlimit : 0 < limit)
    (h : deletePass refers limit steps rows = some (rest, 0)) :
    rest = rows ∧ ∀ step ∈ steps, step.deletable rows = [] := by
  obtain ⟨hrest, -, hidle⟩ | ⟨_, step, _, -, -, hpage, -, hzero, -⟩ := deletePass_eq_some hlimit h
  · exact ⟨hrest, hidle⟩
  · exact (hpage ((DeleteStep.page_eq_nil hlimit).mp (length_eq_zero_iff.mp hzero.symm))).elim

/-- The rows that no statement selects stay as they are. -/
theorem deletePass_filter (hlimit : 0 < limit)
    (h : deletePass refers limit steps rows = some (rest, n)) (keep : α → Bool)
    (hkeep : ∀ step ∈ steps, ∀ row, step.selects row = true → keep row = false) :
    rest.filter keep = rows.filter keep := by
  obtain ⟨rfl, -⟩ | ⟨_, step, _, hsplit, -, -, rfl, -⟩ := deletePass_eq_some hlimit h
  · rfl
  · have hstep : step ∈ steps := by
      rw [hsplit]
      exact mem_append_right _ mem_cons_self
    rw [filter_filter]
    refine filter_congr fun row _ => ?_
    by_cases hpage : row ∈ step.page limit rows
    · have hsels := (DeleteStep.mem_deletable.mp (DeleteStep.deletable_of_mem_page hpage)).2.1
      rw [hkeep step hstep row hsels, Bool.false_and]
    · simp [hpage]

/-! ## Runs of passes -/

/-- The passes leave no selected row. -/
def Drains (refers : α → α → Bool) (limit : Nat) (steps : List (DeleteStep α)) (rows : List α) :
    Prop :=
  ∃ n rest, deletePasses refers limit steps n rows = some rest ∧ ∀ row ∈ rest, ¬ Selected steps row

theorem deletePasses_succ_eq_some : deletePasses refers limit steps (n + 1) rows = some rest ↔
    ∃ next k, deletePass refers limit steps rows = some (next, k) ∧
      deletePasses refers limit steps n next = some rest := by
  rw [deletePasses, Option.bind_eq_some_iff]
  exact ⟨fun ⟨(next, k), hpass, hrest⟩ => ⟨next, k, hpass, hrest⟩,
    fun ⟨next, k, hpass, hrest⟩ => ⟨(next, k), hpass, hrest⟩⟩

theorem deletePasses_add (m n : Nat) : deletePasses refers limit steps (m + n) rows =
    (deletePasses refers limit steps m rows).bind (deletePasses refers limit steps n) := by
  induction m generalizing rows with
  | zero =>
    rw [Nat.zero_add]
    rfl
  | succ m ih =>
    rw [Nat.succ_add, deletePasses, deletePasses, Option.bind_assoc]
    simp only [ih]

theorem deletePasses_sublist (hlimit : 0 < limit)
    (h : deletePasses refers limit steps n rows = some rest) : rest.Sublist rows := by
  induction n generalizing rows with
  | zero =>
    cases h
    exact List.Sublist.refl _
  | succ n ih =>
    obtain ⟨next, k, hpass, hrest⟩ := deletePasses_succ_eq_some.mp h
    exact (ih hrest).trans (deletePass_sublist hlimit hpass)

omit [DecidableEq α] in
theorem BlockedInOrder.subset (h : BlockedInOrder steps rows) (hsub : rest ⊆ rows) :
    BlockedInOrder steps rest := by
  obtain ⟨rank, hrank⟩ := h
  exact ⟨rank, fun step hstep row hrow hsels other hother =>
    hrank step hstep row (hsub hrow) hsels other (hsub hother)⟩

omit [DecidableEq α] in
/-- While selected rows are left, one of them can be deleted. -/
theorem BlockedInOrder.exists_deletable (h : BlockedInOrder steps rows) {row : α}
    (hrow : row ∈ rows) (hsel : Selected steps row) :
    ∃ step ∈ steps, step.deletable rows ≠ [] := by
  obtain ⟨rank, hrank⟩ := h
  -- Induction on the rank: a blocker is selected too and ranks lower.
  induction hr : rank row using Nat.strongRecOn generalizing row with
  | ind r ih =>
    obtain ⟨step, hstep, hsels⟩ := hsel
    by_cases hblk : ∀ other ∈ rows, step.blockedBy row other = false
    · have hdelb := DeleteStep.mem_deletable.mpr ⟨hrow, hsels, hblk⟩
      exact ⟨step, hstep, ne_nil_of_mem hdelb⟩
    · simp only [not_forall, Bool.not_eq_false] at hblk
      obtain ⟨other, hother, hblocks⟩ := hblk
      obtain ⟨hsel, hlt⟩ := hrank step hstep row hrow hsels other hother hblocks
      exact ih (rank other) (hr ▸ hlt) hother hsel rfl

theorem deletePass_lt (hlimit : 0 < limit) (hdelb : ∃ step ∈ steps, step.deletable rows ≠ [])
    (h : deletePass refers limit steps rows = some (rest, n)) : rest.length < rows.length := by
  obtain ⟨-, -, hidle⟩ | ⟨_, step, _, -, -, hpage, rfl, -⟩ := deletePass_eq_some hlimit h
  · obtain ⟨step, hstep, hpage⟩ := hdelb
    exact (hpage (hidle step hstep)).elim
  · have hne : step.page limit rows ≠ [] := fun hnil =>
      hpage ((DeleteStep.page_eq_nil hlimit).mp hnil)
    obtain ⟨row, hrow⟩ := exists_mem_of_ne_nil _ hne
    have hmem := (DeleteStep.mem_deletable.mp (DeleteStep.deletable_of_mem_page hrow)).1
    rw [length_filter_lt_length_iff_exists]
    exact ⟨row, hmem, by simp [hrow]⟩

theorem drains_of_ordered (hlimit : 0 < limit) (horder : BlockedInOrder steps rows)
    (hpasses : ∀ n rest, deletePasses refers limit steps n rows = some rest →
      deletePass refers limit steps rest ≠ none) : Drains refers limit steps rows := by
  induction hlen : rows.length using Nat.strongRecOn generalizing rows with
  | ind length ih =>
    by_cases hdone : ∀ row ∈ rows, ¬ Selected steps row
    · exact ⟨0, rows, rfl, hdone⟩
    · simp only [not_forall, not_not] at hdone
      obtain ⟨row, hrow, hsel⟩ := hdone
      obtain ⟨⟨next, k⟩, hpass⟩ := Option.ne_none_iff_exists'.mp (hpasses 0 rows rfl)
      have hsubl := deletePass_sublist hlimit hpass
      have hlt := deletePass_lt hlimit (horder.exists_deletable hrow hsel) hpass
      obtain ⟨n, rest, hrest, hnone⟩ := ih next.length (hlen ▸ hlt)
        (horder.subset hsubl.subset)
        (fun n rest hrest => hpasses (n + 1) rest (deletePasses_succ_eq_some.mpr ⟨next, k, hpass, hrest⟩))
        rfl
      exact ⟨n + 1, rest, deletePasses_succ_eq_some.mpr ⟨next, k, hpass, hrest⟩, hnone⟩

theorem deletePass_idle (hlimit : 0 < limit) (hnone : ∀ row ∈ rows, ¬ Selected steps row) :
    deletePass refers limit steps rows = some (rows, 0) := by
  obtain ⟨-, hpass⟩ | ⟨before, step, after, hsplit, -, hpage, -⟩ :=
    @deletePass_cases α _ refers limit steps rows hlimit
  · exact hpass
  · obtain ⟨row, hrow⟩ := exists_mem_of_ne_nil _ hpage
    have hrow := DeleteStep.mem_deletable.mp hrow
    refine (hnone row hrow.1 ⟨step, ?_, hrow.2.1⟩).elim
    rw [hsplit]
    exact mem_append_right _ mem_cons_self

/-- Rows that are drained are drained after a first pass too. -/
theorem Drains.next (hlimit : 0 < limit) (h : Drains refers limit steps rows) :
    ∃ rest k, deletePass refers limit steps rows = some (rest, k) ∧
      Drains refers limit steps rest := by
  obtain ⟨n, rest, hpasses, hnone⟩ := h
  cases n with
  | zero =>
    cases hpasses
    exact ⟨rows, 0, deletePass_idle hlimit hnone, 0, rows, rfl, hnone⟩
  | succ n =>
    obtain ⟨next, k, hpass, hrest⟩ := deletePasses_succ_eq_some.mp hpasses
    exact ⟨next, k, hpass, n, rest, hrest, hnone⟩

theorem Drains.after (hlimit : 0 < limit) (h : Drains refers limit steps rows)
    (hpasses : deletePasses refers limit steps n rows = some rest) :
    Drains refers limit steps rest := by
  induction n generalizing rows with
  | zero =>
    cases hpasses
    exact h
  | succ n ih =>
    obtain ⟨next, k, hpass, hrest⟩ := deletePasses_succ_eq_some.mp hpasses
    obtain ⟨next', k', hpass', hnext⟩ := h.next hlimit
    cases hpass.symm.trans hpass'
    exact ih hnext hrest

/-- A property that holds of rows without selected ones, and of the rows before a
    pass when it holds after it, holds of rows that are drained. -/
theorem Drains.induct {P : List α → Prop} (h : Drains refers limit steps rows)
    (hdone : ∀ left, (∀ row ∈ left, ¬ Selected steps row) → P left)
    (hpass : ∀ left next k, deletePass refers limit steps left = some (next, k) → P next → P left) :
    P rows := by
  obtain ⟨n, last, hpasses, hnone⟩ := h
  induction n generalizing rows with
  | zero =>
    cases hpasses
    exact hdone _ hnone
  | succ n ih =>
    obtain ⟨next, k, hnext, hrest⟩ := deletePasses_succ_eq_some.mp hpasses
    exact hpass rows next k hnext (ih hrest)

/-- No two statements select one row. -/
def SelectOnce (steps : List (DeleteStep α)) : Prop :=
  ∀ step ∈ steps, ∀ other ∈ steps, ∀ row, step.selects row = true → other.selects row = true →
    step = other

theorem Drains.ordered (hlimit : 0 < limit) (honce : SelectOnce steps)
    (h : Drains refers limit steps rows) : BlockedInOrder steps rows := by
  refine h.induct (fun rows hnone => ?_) fun rows rest k hpass ⟨rank, hrank⟩ => ?_
  · exact ⟨fun _ => 0, fun step hstep row hrow hsels => (hnone row hrow ⟨step, hstep, hsels⟩).elim⟩
  · -- A row that the pass deletes comes before all that stay.
    refine ⟨fun row => if row ∈ rest then rank row + 1 else 0,
      fun step hstep row hrow hsels other hother hblocks => ?_⟩
    beta_reduce
    by_cases hrest : row ∈ rest
    · rw [if_pos hrest]
      by_cases hother' : other ∈ rest
      · obtain ⟨hsel, hlt⟩ := hrank step hstep row hrest hsels other hother' hblocks
        rw [if_pos hother']
        exact ⟨hsel, Nat.succ_lt_succ hlt⟩
      · obtain ⟨deleting, hdeleting, hdelb⟩ := deletePass_selected hlimit hpass hother hother'
        rw [if_neg hother']
        exact ⟨⟨deleting, hdeleting, (DeleteStep.mem_deletable.mp hdelb).2.1⟩, Nat.succ_pos _⟩
    · obtain ⟨deleting, hdeleting, hdelb⟩ := deletePass_selected hlimit hpass hrow hrest
      obtain ⟨-, hsels', hfree⟩ := DeleteStep.mem_deletable.mp hdelb
      cases honce step hstep deleting hdeleting row hsels hsels'
      rw [hfree other hother] at hblocks
      cases hblocks

/-- A pass that deletes nothing comes when no selected row is left. -/
theorem Drains.none_selected (hlimit : 0 < limit) (honce : SelectOnce steps)
    (h : Drains refers limit steps rows)
    (hpass : deletePass refers limit steps rows = some (rest, 0)) :
    ∀ row ∈ rows, ¬ Selected steps row := by
  intro row hrow hsel
  obtain ⟨step, hstep, hdelb⟩ := (h.ordered hlimit honce).exists_deletable hrow hsel
  exact hdelb ((deletePass_zero hlimit hpass).2 step hstep)

/-- The passes leave no selected row if and only if they are blocked in some
    order and no pass fails. -/
theorem drains_iff (hlimit : 0 < limit) (honce : SelectOnce steps) :
    Drains refers limit steps rows ↔ BlockedInOrder steps rows ∧
      ∀ n rest, deletePasses refers limit steps n rows = some rest →
        deletePass refers limit steps rest ≠ none := by
  refine ⟨fun h => ⟨h.ordered hlimit honce, fun n rest hpasses => ?_⟩,
    fun h => drains_of_ordered hlimit h.1 h.2⟩
  obtain ⟨next, k, hpass, -⟩ := (h.after hlimit hpasses).next hlimit
  rw [hpass]
  exact Option.some_ne_none _

/-! ## References that drained rows cannot have -/

/-- A row that is never deleted refers to none that is. -/
theorem Drains.unselected_refers (hlimit : 0 < limit) (h : Drains refers limit steps rows)
    {row other : α} (hrow : row ∈ rows) (hsel : Selected steps row) (hother : other ∈ rows)
    (hunselected : ¬ Selected steps other) : refers other row = false := by
  refine h.induct (P := fun rows => row ∈ rows → other ∈ rows → refers other row = false)
    (fun rows hnone hrow _ => (hnone row hrow hsel).elim)
    (fun rows rest k hpass ih hrow hother => ?_) hrow hother
  have hstays : other ∈ rest := by
    by_contra hrest
    obtain ⟨step, hstep, hdelb⟩ := deletePass_selected hlimit hpass hother hrest
    exact hunselected ⟨step, hstep, (DeleteStep.mem_deletable.mp hdelb).2.1⟩
  by_cases hrest : row ∈ rest
  · exact ih hrest hstays
  · obtain ⟨rfl, -⟩ | ⟨_, step, _, -, -, -, rfl, -, hrefers⟩ := deletePass_eq_some hlimit hpass
    · exact (hrest hrow).elim
    · have hpage : row ∈ step.page limit rows := by
        by_contra hpage
        exact hrest (mem_filter.mpr ⟨hrow, decide_eq_true hpage⟩)
      exact hrefers other hother (of_decide_eq_true (mem_filter.mp hstays).2) row hpage

/-- A row that can be deleted has no references from rows of later statements. -/
theorem Drains.later_refers (hlimit : 0 < limit) (honce : SelectOnce steps)
    (h : Drains refers limit steps rows) {step later : DeleteStep α} (hstep : step ∈ steps)
    (hlater : later ∈ steps) (hbef : ∀ first last, steps = first ++ later :: last → step ∈ first)
    {row other : α} (hrow : row ∈ step.deletable rows) (hother : other ∈ rows)
    (hsels : later.selects other = true) : refers other row = false := by
  refine h.induct (P := fun rows => row ∈ step.deletable rows → other ∈ rows → refers other row = false)
    (fun rows hnone hrow _ => ?_) (fun rows rest k hpass ih hrow hother => ?_) hrow hother
  · have hrow := DeleteStep.mem_deletable.mp hrow
    exact (hnone row hrow.1 ⟨step, hstep, hrow.2.1⟩).elim
  · obtain ⟨hmem, hrowSelects, hfree⟩ := DeleteStep.mem_deletable.mp hrow
    have hsubl := deletePass_sublist hlimit hpass
    obtain ⟨rfl, -⟩ | ⟨first, deleting, last, hsplit, hfirst, -, hrest, -, hrefers⟩ :=
      deletePass_eq_some hlimit hpass
    · exact ih hrow hother
    · have hdeleting : deleting ∈ steps := by
        rw [hsplit]
        exact mem_append_right _ mem_cons_self
      have hpageSelects : ∀ row ∈ deleting.page limit rows, deleting.selects row = true :=
        fun row hpage =>
          (DeleteStep.mem_deletable.mp (DeleteStep.deletable_of_mem_page hpage)).2.1
      -- The other row is not deleted first: the earlier statement has a row to delete.
      have hstays : other ∉ deleting.page limit rows := by
        intro hpage
        cases honce deleting hdeleting later hlater other (hpageSelects other hpage) hsels
        have hempty := hfirst step (hbef first last hsplit)
        rw [hempty] at hrow
        cases hrow
      by_cases hpage : row ∈ deleting.page limit rows
      · exact hrefers other hother hstays row hpage
      · refine ih (DeleteStep.mem_deletable.mpr ⟨?_, hrowSelects, fun blocker hblocker =>
          hfree blocker (hsubl.subset hblocker)⟩) ?_
        · rw [hrest]
          exact mem_filter.mpr ⟨hmem, decide_eq_true hpage⟩
        · rw [hrest]
          exact mem_filter.mpr ⟨hother, decide_eq_true hstays⟩

end

end OctaCity.Lib
