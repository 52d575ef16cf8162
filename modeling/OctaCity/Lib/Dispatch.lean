/-
  OctaCity.Lib.Dispatch

  Work items handed out under leases, as sets: the items that may be handed
  out, the queue that offers them, the items somebody works on, and who owns
  which of them.  Tables that are kept in step by hand are right when every
  change they make is one of the moves below.
-/
import Mathlib.Data.Set.Basic

namespace OctaCity.Lib

/-- Items, the leases they are handed out under and the workers holding them. -/
@[ext] structure Dispatch (Item Lease Worker : Type) where
  ready : Set Item
  queued : Set Item
  held : Set Item
  owned : Lease → Item → Worker → Prop

namespace Dispatch

variable {Item Lease Worker : Type} {d d' : Dispatch Item Lease Worker}

/-- The queue offers exactly the ready items, a held item has exactly one owner,
    and a worker holds one item at most. -/
structure Sound (d : Dispatch Item Lease Worker) : Prop where
  queued_eq : d.queued = d.ready
  not_held : ∀ item ∈ d.ready, item ∉ d.held
  held_iff : ∀ item, item ∈ d.held ↔ ∃ lease worker, d.owned lease item worker
  item_eq : ∀ {lease item worker item' worker'}, d.owned lease item worker →
    d.owned lease item' worker' → item = item'
  lease_eq : ∀ {lease item worker lease' worker'}, d.owned lease item worker →
    d.owned lease' item worker' → lease = lease'
  worker_eq : ∀ {lease item worker lease' item'}, d.owned lease item worker →
    d.owned lease' item' worker → lease = lease'

/-- One change of the items, their queue and their owners; an item is only handed out by a change
that `grants`. -/
inductive Move (grants : Bool) (d : Dispatch Item Lease Worker) : Dispatch Item Lease Worker → Prop
  | offer (items : Set Item) (hfree : ∀ item ∈ items, item ∉ d.held) :
      Move grants d { d with ready := d.ready ∪ items, queued := d.queued ∪ items }
  | withdraw (items : Set Item) :
      Move grants d { d with ready := d.ready \ items, queued := d.queued \ items }
  | take (lease : Lease) (item : Item) (worker : Worker) (hgrant : grants = true)
      (hready : item ∈ d.ready)
      (hlease : ∀ item worker, ¬ d.owned lease item worker)
      (hworker : ∀ lease item, ¬ d.owned lease item worker) :
      Move grants d
        { ready := d.ready \ {item}
          queued := d.queued \ {item}
          held := insert item d.held
          owned := fun l i w => d.owned l i w ∨ l = lease ∧ i = item ∧ w = worker }
  | finish (lease : Lease) (item : Item) (worker : Worker) (howned : d.owned lease item worker) :
      Move grants d
        { d with
          held := d.held \ {item}
          owned := fun l i w => d.owned l i w ∧ l ≠ lease }

theorem Sound.offer (h : d.Sound) {items : Set Item} (hfree : ∀ item ∈ items, item ∉ d.held) :
    Sound { d with ready := d.ready ∪ items, queued := d.queued ∪ items } where
  queued_eq := by rw [h.queued_eq]
  not_held := fun item hitem => hitem.elim (h.not_held item) (hfree item)
  held_iff := h.held_iff
  item_eq := h.item_eq
  lease_eq := h.lease_eq
  worker_eq := h.worker_eq

theorem Sound.withdraw (h : d.Sound) (items : Set Item) :
    Sound { d with ready := d.ready \ items, queued := d.queued \ items } where
  queued_eq := by rw [h.queued_eq]
  not_held := fun item hitem => h.not_held item hitem.1
  held_iff := h.held_iff
  item_eq := h.item_eq
  lease_eq := h.lease_eq
  worker_eq := h.worker_eq

/-- A ready item goes to a worker that holds none, under a lease that owns none. -/
theorem Sound.take (h : d.Sound) {lease : Lease} {item : Item} {worker : Worker}
    (hready : item ∈ d.ready) (hlease : ∀ item worker, ¬ d.owned lease item worker)
    (hworker : ∀ lease item, ¬ d.owned lease item worker) : Sound
      { ready := d.ready \ {item}
        queued := d.queued \ {item}
        held := insert item d.held
        owned := fun l i w => d.owned l i w ∨ l = lease ∧ i = item ∧ w = worker } where
  queued_eq := by rw [h.queued_eq]
  not_held := by
    rintro i ⟨hi, hne⟩ (rfl | hheld)
    · exact hne rfl
    · exact h.not_held i hi hheld
  held_iff := by
    intro i
    constructor
    · rintro (rfl | hheld)
      · exact ⟨lease, worker, .inr ⟨rfl, rfl, rfl⟩⟩
      · obtain ⟨l, w, howned⟩ := (h.held_iff i).mp hheld
        exact ⟨l, w, .inl howned⟩
    · rintro ⟨l, w, howned | ⟨-, rfl, -⟩⟩
      · exact .inr ((h.held_iff i).mpr ⟨l, w, howned⟩)
      · exact .inl rfl
  item_eq := by
    rintro l i w i' w' (howned | ⟨rfl, rfl, rfl⟩) (howned' | ⟨hl, hi, -⟩)
    · exact h.item_eq howned howned'
    · subst hl
      exact absurd howned (hlease _ _)
    · exact absurd howned' (hlease _ _)
    · exact hi.symm
  lease_eq := by
    -- the new item was ready, so nobody held it before
    have hfree : ∀ l w, ¬ d.owned l item w := fun l w howned =>
      h.not_held item hready ((h.held_iff item).mpr ⟨l, w, howned⟩)
    rintro l i w l' w' (howned | ⟨rfl, rfl, rfl⟩) (howned' | ⟨hl, hi, -⟩)
    · exact h.lease_eq howned howned'
    · subst hi
      exact absurd howned (hfree _ _)
    · exact absurd howned' (hfree _ _)
    · exact hl.symm
  worker_eq := by
    rintro l i w l' i' (howned | ⟨rfl, rfl, rfl⟩) (howned' | ⟨hl, -, hw⟩)
    · exact h.worker_eq howned howned'
    · subst hw
      exact absurd howned (hworker _ _)
    · exact absurd howned' (hworker _ _)
    · exact hl.symm

/-- The only owner of an item gives it up. -/
theorem Sound.finish (h : d.Sound) {lease : Lease} {item : Item} {worker : Worker}
    (howned : d.owned lease item worker) :
    Sound
      { d with
        held := d.held \ {item}
        owned := fun l i w => d.owned l i w ∧ l ≠ lease } where
  queued_eq := h.queued_eq
  not_held := fun i hi hheld => h.not_held i hi hheld.1
  held_iff := by
    intro i
    constructor
    · rintro ⟨hheld, hne⟩
      obtain ⟨l, w, hother⟩ := (h.held_iff i).mp hheld
      refine ⟨l, w, hother, ?_⟩
      rintro rfl
      exact hne (h.item_eq hother howned)
    · rintro ⟨l, w, hother, hne⟩
      refine ⟨(h.held_iff i).mpr ⟨l, w, hother⟩, ?_⟩
      rintro rfl
      exact hne (h.lease_eq hother howned)
  item_eq := fun h₁ h₂ => h.item_eq h₁.1 h₂.1
  lease_eq := fun h₁ h₂ => h.lease_eq h₁.1 h₂.1
  worker_eq := fun h₁ h₂ => h.worker_eq h₁.1 h₂.1

theorem Sound.move {grants : Bool} (h : d.Sound) (hmove : Move grants d d') : d'.Sound := by
  cases hmove with
  | offer items hfree => exact h.offer hfree
  | withdraw items => exact h.withdraw items
  | take lease item worker _ hready hlease hworker => exact h.take hready hlease hworker
  | finish lease item worker howned => exact h.finish howned

/-- Any sequence of moves keeps the queue and the owners right. -/
theorem Sound.moves {grants : Bool} (h : d.Sound)
    (hmoves : Relation.ReflTransGen (Move grants) d d') : d'.Sound := by
  induction hmoves with
  | refl => exact h
  | tail _ hmove ih => exact ih.move hmove

/-- Nothing is offered and nothing is held. -/
theorem sound_empty : Sound (⟨∅, ∅, ∅, fun _ _ _ => False⟩ : Dispatch Item Lease Worker) where
  queued_eq := rfl
  not_held := fun _ hitem => hitem.elim
  held_iff := fun _ => ⟨False.elim, fun ⟨_, _, howned⟩ => howned⟩
  item_eq := False.elim
  lease_eq := False.elim
  worker_eq := False.elim

end Dispatch

end OctaCity.Lib
