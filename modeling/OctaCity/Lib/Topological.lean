/-
  OctaCity.Lib.Topological

  Orders that respect a relation.  Placing the least ready element, again and
  again, places all elements exactly if the relation has no cycle, and what it
  places comes in the least order that respects the relation.
-/
import OctaCity.Lib.Count
import Mathlib.Data.Fintype.EquivFin

namespace OctaCity.Lib

open List Relation

/-! ## Orders that respect a relation -/

section

variable {α : Type} {before : α → α → Prop} {order : List α}

/-- Everything before an element of the order comes earlier in it. -/
def Respects (before : α → α → Prop) (order : List α) : Prop :=
  ∀ front x rest, order = front ++ x :: rest → ∀ y, before y x → y ∈ front

theorem Respects.snoc (h : Respects before order) {x : α} (hx : ∀ y, before y x → y ∈ order) :
    Respects before (order ++ [x]) := by
  intro front z rest heq y hy
  rcases eq_nil_or_concat rest with rfl | ⟨init, last, rfl⟩
  · obtain ⟨rfl, hz⟩ := append_inj' heq rfl
    rw [singleton_inj] at hz
    subst hz
    exact hx y hy
  · rw [concat_eq_append, ← cons_append, ← append_assoc] at heq
    exact h front z init (append_inj' heq rfl).1 y hy

theorem Respects.of_snoc {x : α} (h : Respects before (order ++ [x])) : Respects before order :=
  fun front y rest heq => h front y (rest ++ [x]) (by rw [heq, append_assoc]; rfl)

variable [DecidableEq α]

theorem Respects.idxOf_lt (h : Respects before order) {a b : α} (hab : before a b)
    (hb : b ∈ order) : order.idxOf a < order.idxOf b := by
  obtain ⟨front, rest, rfl, hfresh⟩ := eq_append_cons_of_mem hb
  have ha : a ∈ front := h front b rest rfl a hab
  have hlt : front.idxOf a < front.length := idxOf_lt_length_of_mem ha
  rw [idxOf_append_of_mem ha, idxOf_append_of_notMem hfresh, idxOf_cons_self]
  omega

theorem Respects.acyclic (h : Respects before order) (hmem : ∀ a b, before a b → b ∈ order)
    (x : α) : ¬TransGen before x x := by
  have hlt : ∀ {a b : α}, TransGen before a b → order.idxOf a < order.idxOf b := by
    intro a b hab
    induction hab with
    | single hab => exact h.idxOf_lt hab (hmem _ _ hab)
    | tail _ hbc ih => exact ih.trans (h.idxOf_lt hbc (hmem _ _ hbc))
  intro hcycle
  exact absurd (hlt hcycle) (lt_irrefl _)

end

/-! ## The least ready element first -/

section

variable {α : Type} [LinearOrder α]

/-- An element that is not placed yet, while everything before it is. -/
structure Ready (nodes : List α) (before : α → α → Prop) (placed : List α) (x : α) : Prop where
  mem : x ∈ nodes
  fresh : x ∉ placed
  preceded : ∀ y, before y x → y ∈ placed

omit [LinearOrder α] in
/-- What placing a ready element makes ready: its successors that wait for nothing else. -/
theorem Ready.snoc_iff {nodes placed : List α} {before : α → α → Prop} {a x : α}
    (ha : Ready nodes before placed a) (hplace : ∀ b ∈ placed, ∀ y, before y b → y ∈ placed)
    (hnodes : ∀ b, before a b → b ∈ nodes) : Ready nodes before (placed ++ [a]) x ↔
      Ready nodes before placed x ∧ x ≠ a ∨ before a x ∧ ∀ y, before y x → y ∈ placed ++ [a] := by
  constructor
  · intro hx
    by_cases hax : before a x
    · exact .inr ⟨hax, hx.preceded⟩
    · obtain ⟨hfresh, hne⟩ := not_or.mp (mem_concat.not.mp hx.fresh)
      refine .inl ⟨⟨hx.mem, hfresh, fun y hy => ?_⟩, Ne.symm hne⟩
      refine (mem_concat.mp (hx.preceded y hy)).resolve_right ?_
      rintro rfl
      exact hax hy
  · rintro (⟨hx, hne⟩ | ⟨hax, hx⟩)
    · refine ⟨hx.mem, ?_, fun y hy => mem_append_left _ (hx.preceded y hy)⟩
      exact fun hmem => (mem_concat.mp hmem).elim hx.fresh hne.symm
    · -- What is placed has all its predecessors placed, and `a` is not.
      refine ⟨hnodes x hax, fun hmem => ?_, hx⟩
      rcases mem_concat.mp hmem with hmem | rfl
      · exact ha.fresh (hplace x hmem a hax)
      · exact ha.fresh (ha.preceded _ hax)

/-- After `placed`, the elements of the list are placed, each the least ready one, until no
    element is ready. -/
inductive Greedy (nodes : List α) (before : α → α → Prop) : List α → List α → Prop
  | done {placed : List α} (hnone : ∀ x, ¬Ready nodes before placed x) :
      Greedy nodes before placed []
  | place {placed rest : List α} {x : α} (hready : Ready nodes before placed x)
      (hleast : ∀ y, Ready nodes before placed y → x ≤ y)
      (hrest : Greedy nodes before (placed ++ [x]) rest) : Greedy nodes before placed (x :: rest)

namespace Greedy

variable {nodes placed rest : List α} {before : α → α → Prop}

theorem nodup (h : Greedy nodes before placed rest) (hplace : placed.Nodup) :
    (placed ++ rest).Nodup := by
  induction h with
  | done => simpa using hplace
  | @place placed rest x hready _ _ ih =>
    rw [← singleton_append, ← append_assoc]
    refine ih ?_
    rw [← concat_eq_append]
    exact hplace.concat hready.fresh

theorem subset (h : Greedy nodes before placed rest) : rest ⊆ nodes := by
  induction h with
  | done => exact nil_subset _
  | place hready _ _ ih => exact cons_subset.mpr ⟨hready.mem, ih⟩

theorem respects (h : Greedy nodes before placed rest) (hplace : Respects before placed) :
    Respects before (placed ++ rest) := by
  induction h with
  | done => simpa using hplace
  | place hready _ _ ih =>
    rw [← singleton_append, ← append_assoc]
    exact ih (hplace.snoc hready.preceded)

theorem none_ready (h : Greedy nodes before placed rest) (x : α) :
    ¬Ready nodes before (placed ++ rest) x := by
  induction h with
  | done hnone => simpa using hnone x
  | place _ _ _ ih =>
    rw [← singleton_append, ← append_assoc]
    exact ih

/-- Without a cycle, an element that is not placed has a first one before it that is not
    placed either, and that one is ready. -/
theorem mem_of_acyclic (h : Greedy nodes before placed rest)
    (hbef : ∀ a b, before a b → a ∈ nodes) (hacyclic : ∀ x, ¬TransGen before x x) {x : α}
    (hx : x ∈ nodes) : x ∈ placed ++ rest := by
  by_contra hmiss
  let r : {a // a ∈ nodes} → {a // a ∈ nodes} → Prop := fun a b => TransGen before a.1 b.1
  have : IsTrans _ r := ⟨fun _ _ _ hab hbc => hab.trans hbc⟩
  have : Std.Irrefl r := ⟨fun a => hacyclic a.1⟩
  have : Finite {a // a ∈ nodes} := Fintype.finite inferInstance
  have hwf : WellFounded r := Finite.wellFounded_of_trans_of_irrefl r
  obtain ⟨first, hfirst, hmin⟩ := hwf.has_min {a | a.1 ∉ placed ++ rest} ⟨⟨x, hx⟩, hmiss⟩
  refine h.none_ready first.1 ⟨first.2, hfirst, fun y hy => ?_⟩
  by_contra hy'
  exact hmin ⟨y, hbef y first.1 hy⟩ hy' (.single hy)

/-- Everything is placed exactly if there is no cycle. -/
theorem perm_iff {order : List α} (h : Greedy nodes before [] order) (hnodup : nodes.Nodup)
    (hbef : ∀ a b, before a b → a ∈ nodes ∧ b ∈ nodes) :
    order.Perm nodes ↔ ∀ x, ¬TransGen before x x := by
  constructor
  · intro hperm
    have hresp : Respects before order := h.respects (by
      intro front x rest heq
      simp at heq)
    exact hresp.acyclic fun a b hab => hperm.mem_iff.mpr (hbef a b hab).2
  · intro hacyclic
    have hplace : order.Nodup := h.nodup nodup_nil
    rw [perm_ext_iff_of_nodup hplace hnodup]
    intro x
    exact ⟨fun hx => h.subset hx,
      fun hx => h.mem_of_acyclic (fun a b hab => (hbef a b hab).1) hacyclic hx⟩

/-- Any order of all elements that respects the relation starts with a ready element. -/
theorem le_of_respects (h : Greedy nodes before placed rest) {other : List α}
    (hperm : (placed ++ other).Perm nodes) (hnodup : nodes.Nodup)
    (hresp : Respects before (placed ++ other)) : rest ≤ other := by
  induction h generalizing other with
  | done => exact not_lt.mp (not_lt_nil other)
  | @place placed rest x hready hleast _ ih =>
    cases other with
    | nil =>
      rw [append_nil] at hperm
      exact absurd (hperm.mem_iff.mpr hready.mem) hready.fresh
    | cons y other =>
      have hfresh : y ∉ placed := by
        have := nodup_append.mp (hperm.nodup_iff.mpr hnodup)
        exact fun hy => this.2.2 y hy y mem_cons_self rfl
      have hy : Ready nodes before placed y :=
        ⟨hperm.mem_iff.mp (by simp), hfresh, hresp placed y other rfl⟩
      rcases (hleast y hy).lt_or_eq with hlt | heq
      · exact le_of_lt (List.Lex.rel hlt)
      · subst heq
        refine cons_le_cons x (ih ?_ ?_)
        · simpa using hperm
        · simpa using hresp

end Greedy

end

/-! ## Depths -/

/-- The greatest of the depths is the length of the longest path. -/
theorem isGreatest_depth {α : Type} {before : α → α → Prop} {order : List α} {depth : α → Nat}
    (hpath : ∀ a, ∃ path, (path ++ [a]).IsChain before ∧ path.length = depth a)
    (hdeeper : ∀ a b, before a b → depth a + 1 ≤ depth b)
    (hplace : ∀ a b, before a b → b ∈ order) :
    IsGreatest {n | ∃ path : List α, path.IsChain before ∧ path.length - 1 = n}
      ((order.map depth).max?.getD 0) := by
  have hlen : ∀ (path : List α) (a : α), (path ++ [a]).IsChain before →
      path.length ≤ depth a ∧ (path = [] ∨ a ∈ order) := by
    intro path
    induction path using List.reverseRecOn with
    | nil => exact fun a _ => ⟨Nat.zero_le _, .inl rfl⟩
    | append_singleton front last ih =>
      intro a hchain
      rw [append_assoc, singleton_append, isChain_split] at hchain
      have hlast : before last a := isChain_pair.mp hchain.2
      have hfront := (ih last hchain.1).1
      have := hdeeper last a hlast
      rw [length_append, length_singleton]
      exact ⟨by omega, .inr (hplace last a hlast)⟩
  constructor
  · cases hmax : (order.map depth).max? with
    | none => exact ⟨[], .nil, rfl⟩
    | some greatest =>
      obtain ⟨a, -, ha⟩ := mem_map.mp (List.max?_eq_some_iff.mp hmax).1
      obtain ⟨path, hchain, hdepth⟩ := hpath a
      exact ⟨path ++ [a], hchain, by simp [hdepth, ha]⟩
  · rintro _ ⟨path, hchain, rfl⟩
    rcases eq_nil_or_concat path with rfl | ⟨front, last, rfl⟩
    · exact Nat.zero_le _
    · rw [concat_eq_append] at hchain ⊢
      obtain ⟨hle, rfl | hmem⟩ := hlen front last hchain
      · exact Nat.zero_le _
      · rw [length_append, length_singleton, Nat.add_sub_cancel]
        exact hle.trans (le_max?_getD_of_mem (mem_map_of_mem hmem))

end OctaCity.Lib
