/-
  OctaCity.Lib.FinishOrder

  Depth-first searches with an explicit stack: a node is marked when it is visited
  and finished when its mark is taken off again.  Main result: `Finishing.finish`
  keeps `Late`: of two nodes of which the first reaches the second and not the
  other way round, some node equivalent to the first is finished after the second.
-/
import Mathlib.Data.List.Nodup
import Mathlib.Logic.Relation

namespace OctaCity.Lib

open List Relation

variable {α : Type} {r : α → α → Prop} {pending : List (α × Bool)} {visited finished : List α}

/-! ## The stack -/

/-- What follows a marked node is visited, or waits above its mark. -/
def Covered (r : α → α → Prop) : List α → List (α × Bool) → Prop
  | _, [] => True
  | visited, (a, false) :: rest => Covered r (a :: visited) rest
  | visited, (a, true) :: rest => (∀ b, r a b → b ∈ visited) ∧ Covered r visited rest

theorem Covered.mono {visited' : List α} (hsub : visited ⊆ visited')
    (h : Covered r visited pending) : Covered r visited' pending := by
  induction pending generalizing visited visited' with
  | nil => trivial
  | cons entry rest ih =>
    obtain ⟨a, _ | _⟩ := entry
    · exact ih (cons_subset_cons a hsub) h
    · exact ⟨fun b hab => hsub (h.1 b hab), ih hsub h.2⟩

theorem covered_append {added : List α} : Covered r visited (added.map (·, false) ++ pending) ↔
      Covered r (added.reverse ++ visited) pending := by
  induction added generalizing visited with
  | nil => rfl
  | cons a added ih =>
    rw [reverse_cons, append_assoc, singleton_append]
    exact ih

/-- A path all of whose nodes but the last are finished. -/
abbrev Through (r : α → α → Prop) (finished : List α) : α → α → Prop :=
  ReflTransGen fun a b => a ∈ finished ∧ r a b

/-- A path either avoids a node or gets to it first. -/
theorem Through.split {a b c : α} (h : Through r (c :: finished) a b) :
    Through r finished a b ∨ Through r finished a c := by
  induction h using ReflTransGen.head_induction_on with
  | refl => exact .inl .refl
  | head hstep _ ih =>
    rcases mem_cons.mp hstep.1 with rfl | hmem
    · exact .inr .refl
    · exact ih.imp (.head ⟨hmem, hstep.2⟩) (.head ⟨hmem, hstep.2⟩)

/-- The two nodes reach each other. -/
def Mutual (r : α → α → Prop) (a b : α) : Prop := ReflTransGen r a b ∧ ReflTransGen r b a

theorem Mutual.refl (a : α) : Mutual r a a := ⟨.refl, .refl⟩

/-! ## What a search keeps -/

/-- Of the nodes that reach a finished one, one is not finished before it, up to equivalence.  The
    node finished last is the first of the list. -/
def Late (r : α → α → Prop) (finished : List α) : Prop :=
  ∀ front b back, finished = front ++ b :: back → ∀ a, ReflTransGen r a b →
    ReflTransGen r b a ∨ ∃ a', Mutual r a a' ∧ a' ∉ b :: back

/-- The state of a search: the stack, the visited and the finished nodes. -/
structure Finishing (r : α → α → Prop) (pending : List (α × Bool)) (visited finished : List α) :
    Prop where
  marked : ∀ a, a ∈ visited ↔ a ∈ finished ∨ (a, true) ∈ pending
  fresh : ∀ a, (a, true) ∈ pending → a ∉ finished
  stacked : pending.Pairwise fun above below => below.2 = true →
    ReflTransGen r below.1 above.1 ∧ (above.2 = true → above.1 ≠ below.1)
  covered : Covered r visited pending
  closed : ∀ a ∈ finished, ∀ b, r a b → b ∈ visited
  back : ∀ a ∈ finished, ∀ b, (b, true) ∈ pending → Through r finished a b → ReflTransGen r b a
  nodup : finished.Nodup
  late : Late r finished

namespace Finishing

variable {a : α} {rest : List (α × Bool)}

theorem start (r : α → α → Prop) : Finishing r [] [] [] where
  marked := by simp
  fresh := nofun
  stacked := .nil
  covered := trivial
  closed := nofun
  back := nofun
  nodup := .nil
  late := by
    intro front b back heq
    cases front <;> cases heq

/-- A new root on an empty stack. -/
theorem root (h : Finishing r [] visited finished) (a : α) :
    Finishing r [(a, false)] visited finished where
  marked := by simpa using h.marked
  fresh := by simp
  stacked := pairwise_singleton _ _
  covered := trivial
  closed := h.closed
  back := by simp
  nodup := h.nodup
  late := h.late

/-- A visited node is dropped. -/
theorem skip (h : Finishing r ((a, false) :: rest) visited finished) (ha : a ∈ visited) :
    Finishing r rest visited finished where
  marked := by simpa using h.marked
  fresh := fun b hb => h.fresh b (mem_cons_of_mem _ hb)
  stacked := h.stacked.of_cons
  covered := Covered.mono (cons_subset.mpr ⟨ha, List.Subset.refl _⟩) h.covered
  closed := h.closed
  back := fun b hb c hc => h.back b hb c (mem_cons_of_mem _ hc)
  nodup := h.nodup
  late := h.late

/-- A node is visited: what follows it goes on the stack, above its mark. -/
theorem visit (h : Finishing r ((a, false) :: rest) visited finished) (ha : a ∉ visited)
    {added : List α} (hadded : ∀ b ∈ added, r a b)
    (hall : ∀ b, r a b → b ∈ added ∨ b ∈ a :: visited) :
    Finishing r (added.map (·, false) ++ (a, true) :: rest) (a :: visited) finished := by
  have hmarked : ∀ b, (b, true) ∈ added.map (·, false) ++ (a, true) :: rest ↔
      b = a ∨ (b, true) ∈ rest := by simp
  have hrest : ∀ b, (b, true) ∈ rest → b ∈ visited ∧ ReflTransGen r b a := by
    intro b hb
    exact ⟨(h.marked b).mpr (.inr (mem_cons_of_mem _ hb)),
      ((pairwise_cons.mp h.stacked).1 _ hb rfl).1⟩
  refine ⟨?_, ?_, ?_, ?_, ?_, ?_, h.nodup, h.late⟩
  · intro b
    have hold := h.marked b
    simp only [mem_cons, Prod.mk.injEq, Bool.true_eq_false, and_false, false_or] at hold ⊢
    rw [hmarked, hold]
    tauto
  · intro b hb
    rcases (hmarked b).mp hb with rfl | hb
    · exact fun hfin => ha ((h.marked b).mpr (.inl hfin))
    · exact h.fresh b (mem_cons_of_mem _ hb)
  · rw [pairwise_append, pairwise_cons]
    refine ⟨pairwise_map.mpr (pairwise_of_forall fun _ _ => nofun), ⟨?_, ?_⟩, ?_⟩
    · rintro ⟨b, _⟩ hb rfl
      refine ⟨(hrest b hb).2, fun _ hsame => ha ?_⟩
      rw [show a = b from hsame]
      exact (hrest b hb).1
    · exact h.stacked.of_cons
    · rintro above habove ⟨b, _⟩ hb rfl
      obtain ⟨c, hc, rfl⟩ := mem_map.mp habove
      refine ⟨?_, nofun⟩
      rcases mem_cons.mp hb with heq | hb
      · cases heq
        exact .single (hadded c hc)
      · exact (hrest b hb).2.tail (hadded c hc)
  · rw [covered_append]
    refine ⟨fun b hb => ?_, Covered.mono (subset_append_right _ _) h.covered⟩
    rw [mem_append, mem_reverse]
    exact hall b hb
  · exact fun b hb c hbc => mem_cons_of_mem _ (h.closed b hb c hbc)
  · intro b hb c hc hpath
    rcases (hmarked c).mp hc with rfl | hc
    · -- No finished node leads to the new one: all that follows it was visited.
      exfalso
      rcases ReflTransGen.cases_tail hpath with heq | ⟨d, -, hd, hdc⟩
      · exact ha ((h.marked _).mpr (.inl (heq ▸ hb)))
      · exact ha (h.closed d hd _ hdc)
    · exact h.back b hb c (mem_cons_of_mem _ hc) hpath

/-- Without a way back from the node, all that a finished node reaches is finished. -/
theorem reached_finished (h : Finishing r ((a, true) :: rest) visited finished) {b : α}
    (hb : ∀ c, Mutual r b c → c ∈ a :: finished) (hno : ¬ReflTransGen r a b) {c : α}
    (hbc : ReflTransGen r b c) : c ∈ finished ∧ Through r finished b c := by
  have hne : ∀ c, Mutual r b c → c ∈ finished := by
    intro c hc
    rcases mem_cons.mp (hb c hc) with rfl | hmem
    · exact absurd hc.2 hno
    · exact hmem
  induction hbc with
  | refl => exact ⟨hne b (.refl b), .refl⟩
  | @tail c d hbc hcd ih =>
    obtain ⟨hc, hthrough⟩ := ih
    have hnext : Through r finished b d := hthrough.tail ⟨hc, hcd⟩
    refine ⟨?_, hnext⟩
    rcases (h.marked d).mp (h.closed c hc d hcd) with hd | hd
    · exact hd
    · exact hne d ⟨hbc.tail hcd, h.back b (hne b (.refl b)) d hd hnext⟩

/-- The mark of a node is taken off. -/
theorem finish (h : Finishing r ((a, true) :: rest) visited finished) :
    Finishing r rest visited (a :: finished) := by
  have hbelow : ∀ b, (b, true) ∈ rest → ReflTransGen r b a ∧ a ≠ b := fun b hb =>
    ((pairwise_cons.mp h.stacked).1 _ hb rfl).imp_right fun hne => hne rfl
  have hfresh : a ∉ finished := h.fresh a mem_cons_self
  refine ⟨?_, ?_, h.stacked.of_cons, h.covered.2, ?_, ?_, ?_, ?_⟩
  · intro b
    rw [h.marked b, mem_cons, mem_cons, Prod.mk.injEq, eq_self_iff_true, and_true]
    tauto
  · intro b hb
    rw [mem_cons, not_or]
    exact ⟨(hbelow b hb).2.symm, h.fresh b (mem_cons_of_mem _ hb)⟩
  · exact forall_mem_cons.mpr ⟨h.covered.1, h.closed⟩
  · intro b hb c hc hpath
    rcases mem_cons.mp hb with rfl | hb
    · exact (hbelow c hc).1
    rcases hpath.split with hpath | hpath
    · exact h.back b hb c (mem_cons_of_mem _ hc) hpath
    · exact (hbelow c hc).1.trans (h.back b hb a mem_cons_self hpath)
  · exact nodup_cons.mpr ⟨hfresh, h.nodup⟩
  · intro front b back heq c hcb
    cases front with
    | cons _ front =>
      exact h.late front b back (List.cons.inj heq).2 c hcb
    | nil =>
      cases heq
      by_contra hnone
      push Not at hnone
      exact hfresh (h.reached_finished hnone.2 hnone.1 hcb).1

end Finishing

end OctaCity.Lib
