/-
  OctaCity.Lib.Meets

  Grants that overlap in one grant or not at all.  A grant allows some set of
  uses; `meet` gives the grant of the uses two grants share, when there are any.
-/
import Mathlib.Data.Set.Card

namespace OctaCity.Lib

open List Option

variable {α β : Type}

/-- `meet` computes the common uses of two grants. -/
structure Meets (meet : α → α → Option α) (allows : α → β → Prop) : Prop where
  shared : ∀ a b x, (∃ c, meet a b = some c ∧ allows c x) ↔ allows a x ∧ allows b x
  inhabited : ∀ a, ∃ x, allows a x
  separated : ∀ a b, (∀ x, allows a x ↔ allows b x) → a = b

namespace Meets

variable {meet : α → α → Option α} {allows : α → β → Prop} (h : Meets meet allows)
include h

/-! ## Single grants -/

theorem eq_some_iff {a b c : α} :
    meet a b = some c ↔ ∀ x, allows c x ↔ allows a x ∧ allows b x := by
  constructor
  · intro hmeet x
    rw [← h.shared a b x]
    constructor
    · exact fun hallow => ⟨c, hmeet, hallow⟩
    · rintro ⟨d, hd, hallow⟩
      rw [hmeet] at hd
      cases hd
      exact hallow
  · intro hallow
    -- A use of `c` is shared, so the grants meet, in a grant with the same uses.
    obtain ⟨x, hx⟩ := h.inhabited c
    obtain ⟨d, hd, -⟩ := (h.shared a b x).mpr ((hallow x).mp hx)
    have hsame : d = c := h.separated d c fun y => by
      rw [hallow y, ← h.shared a b y]
      constructor
      · exact fun hy => ⟨d, hd, hy⟩
      · rintro ⟨e, he, hy⟩
        rw [hd] at he
        cases he
        exact hy
    rw [hd, hsame]

theorem comm (a b : α) : meet a b = meet b a := by
  ext c
  rw [h.eq_some_iff, h.eq_some_iff]
  simp only [and_comm]

theorem self (a : α) : meet a a = some a := by
  rw [h.eq_some_iff]
  simp

/-- Three grants meet in the same grant whichever two are met first. -/
theorem assoc (a b c : α) :
    (meet a b).bind (fun d => meet d c) = (meet b c).bind (fun d => meet a d) := by
  ext e
  simp only [bind_eq_some_iff]
  constructor
  · rintro ⟨d, hd, he⟩
    rw [h.eq_some_iff] at hd he
    obtain ⟨x, hx⟩ := h.inhabited e
    have hshared : allows b x ∧ allows c x :=
      ⟨((hd x).mp ((he x).mp hx).1).2, ((he x).mp hx).2⟩
    obtain ⟨d', hd', -⟩ := (h.shared b c x).mpr hshared
    refine ⟨d', hd', ?_⟩
    rw [h.eq_some_iff] at hd' ⊢
    intro y
    rw [he, hd, hd', and_assoc]
  · rintro ⟨d, hd, he⟩
    rw [h.eq_some_iff] at hd he
    obtain ⟨x, hx⟩ := h.inhabited e
    have hshared : allows a x ∧ allows b x :=
      ⟨((he x).mp hx).1, ((hd x).mp ((he x).mp hx).2).1⟩
    obtain ⟨d', hd', -⟩ := (h.shared a b x).mpr hshared
    refine ⟨d', hd', ?_⟩
    rw [h.eq_some_iff] at hd' ⊢
    intro y
    rw [he, hd, hd', and_assoc]

end Meets

/-! ## Lists of grants -/

/-- The meet of two lists of the same length, position by position. -/
def listMeet (meet : α → α → Option α) : List α → List α → Option (List α)
  | [], [] => some []
  | a :: as, b :: bs =>
    (meet a b).bind fun c => (listMeet meet as bs).map fun cs => c :: cs
  | _, _ => none

section

variable {meet : α → α → Option α} {allows : α → β → Prop}

theorem listMeet_zip {as bs : List α} (hlen : as.length = bs.length) :
    (as.zip bs).mapM (fun pair => meet pair.1 pair.2) = listMeet meet as bs := by
  induction as generalizing bs with
  | nil =>
    cases bs with
    | nil => rfl
    | cons b bs => cases hlen
  | cons a as ih =>
    cases bs with
    | nil => cases hlen
    | cons b bs =>
      rw [zip_cons_cons, mapM_cons, ih (Nat.succ.inj hlen)]
      show (meet a b).bind (fun c => (listMeet meet as bs).bind fun cs => some (c :: cs)) = _
      simp only [listMeet, map_eq_bind]
      rfl

theorem length_of_listMeet {as bs cs : List α} (h : listMeet meet as bs = some cs) :
    as.length = bs.length := by
  induction as generalizing bs cs with
  | nil =>
    cases bs with
    | nil => rfl
    | cons b bs => cases h
  | cons a as ih =>
    cases bs with
    | nil => cases h
    | cons b bs =>
      obtain ⟨c, -, h⟩ := bind_eq_some_iff.mp h
      obtain ⟨rest, hrest, -⟩ := map_eq_some_iff.mp h
      rw [length_cons, length_cons, ih hrest]

theorem Meets.exists_forall₂ (h : Meets meet allows) (as : List α) :
    ∃ xs, List.Forall₂ allows as xs := by
  induction as with
  | nil => exact ⟨[], .nil⟩
  | cons a as ih =>
    obtain ⟨x, hx⟩ := h.inhabited a
    obtain ⟨xs, hxs⟩ := ih
    exact ⟨x :: xs, .cons hx hxs⟩

/-- Lists of grants meet position by position. -/
theorem Meets.list (h : Meets meet allows) : Meets (listMeet meet) (List.Forall₂ allows) where
  shared as bs xs := by
    induction as generalizing bs xs with
    | nil =>
      cases bs with
      | nil => simp [listMeet]
      | cons b bs =>
        constructor
        · rintro ⟨cs, hcs, -⟩
          cases hcs
        · rintro ⟨ha, hb⟩
          cases ha
          cases hb
    | cons a as ih =>
      cases bs with
      | nil =>
        constructor
        · rintro ⟨cs, hcs, -⟩
          cases hcs
        · rintro ⟨ha, hb⟩
          cases hb
          cases ha
      | cons b bs =>
        constructor
        · rintro ⟨cs, hcs, hall⟩
          obtain ⟨c, hc, hcs⟩ := bind_eq_some_iff.mp hcs
          obtain ⟨rest, hrest, rfl⟩ := map_eq_some_iff.mp hcs
          cases hall with
          | cons hhead htail =>
            obtain ⟨hahead, hbhead⟩ := (h.eq_some_iff.mp hc _).mp hhead
            obtain ⟨hatail, hbtail⟩ := (ih bs _).mp ⟨rest, hrest, htail⟩
            exact ⟨.cons hahead hatail, .cons hbhead hbtail⟩
        · rintro ⟨ha, hb⟩
          cases ha with
          | cons hahead hatail =>
            cases hb with
            | cons hbhead hbtail =>
              obtain ⟨c, hc, hhead⟩ := (h.shared a b _).mpr ⟨hahead, hbhead⟩
              obtain ⟨rest, hrest, htail⟩ := (ih bs _).mpr ⟨hatail, hbtail⟩
              refine ⟨c :: rest, ?_, .cons hhead htail⟩
              simp [listMeet, hc, hrest]
  inhabited := h.exists_forall₂
  separated as bs hsame := by
    induction as generalizing bs with
    | nil =>
      cases bs with
      | nil => rfl
      | cons b bs => cases (hsame []).mp .nil
    | cons a as ih =>
      obtain ⟨x, hx⟩ := h.inhabited a
      obtain ⟨xs, hxs⟩ := h.exists_forall₂ as
      cases bs with
      | nil => cases (hsame (x :: xs)).mp (.cons hx hxs)
      | cons b bs =>
        cases (hsame (x :: xs)).mp (.cons hx hxs) with
        | cons hbx hbxs =>
          -- Vary the head use for the heads, the rest for the tails.
          have hhead : a = b := h.separated a b fun y => by
            have := hsame (y :: xs)
            rw [forall₂_cons, forall₂_cons] at this
            simpa [hxs, hbxs] using this
          have htail : as = bs := ih bs fun ys => by
            have := hsame (x :: ys)
            rw [forall₂_cons, forall₂_cons] at this
            simpa [hx, hbx] using this
          rw [hhead, htail]

end

/-! ## Sets of grants -/

variable [DecidableEq α]

/-- The meets of every pair of grants. -/
def crossMeet (meet : α → α → Option α) (s t : Finset α) : Finset α :=
  (s ×ˢ t).biUnion fun pair => (meet pair.1 pair.2).toFinset

/-- The grants of a set meet within it. -/
def MeetClosed (meet : α → α → Option α) (s : Finset α) : Prop :=
  ∀ a ∈ s, ∀ b ∈ s, ∀ c, meet a b = some c → c ∈ s

variable {meet : α → α → Option α} {s t u : Finset α}

theorem mem_crossMeet {c : α} : c ∈ crossMeet meet s t ↔ ∃ a ∈ s, ∃ b ∈ t, meet a b = some c := by
  simp only [crossMeet, Finset.mem_biUnion, Finset.mem_product, mem_toFinset,
    mem_def, Prod.exists]
  constructor
  · rintro ⟨a, b, ⟨ha, hb⟩, hc⟩
    exact ⟨a, ha, b, hb, hc⟩
  · rintro ⟨a, ha, b, hb, hc⟩
    exact ⟨a, b, ⟨ha, hb⟩, hc⟩

namespace Meets

variable {allows : α → β → Prop} (h : Meets meet allows)
include h

/-- The meets of two sets allow what both sets allow. -/
theorem crossMeet_allows (s t : Finset α) (x : β) : (∃ c ∈ crossMeet meet s t, allows c x) ↔
      (∃ a ∈ s, allows a x) ∧ ∃ b ∈ t, allows b x := by
  constructor
  · rintro ⟨c, hc, hx⟩
    obtain ⟨a, ha, b, hb, hmeet⟩ := mem_crossMeet.mp hc
    obtain ⟨hax, hbx⟩ := (h.eq_some_iff.mp hmeet x).mp hx
    exact ⟨⟨a, ha, hax⟩, b, hb, hbx⟩
  · rintro ⟨⟨a, ha, hax⟩, b, hb, hbx⟩
    obtain ⟨c, hmeet, hx⟩ := (h.shared a b x).mpr ⟨hax, hbx⟩
    exact ⟨c, mem_crossMeet.mpr ⟨a, ha, b, hb, hmeet⟩, hx⟩

theorem crossMeet_comm (s t : Finset α) : crossMeet meet s t = crossMeet meet t s := by
  ext c
  rw [mem_crossMeet, mem_crossMeet]
  constructor
  · rintro ⟨a, ha, b, hb, hmeet⟩
    exact ⟨b, hb, a, ha, (h.comm b a).trans hmeet⟩
  · rintro ⟨b, hb, a, ha, hmeet⟩
    exact ⟨a, ha, b, hb, (h.comm a b).trans hmeet⟩

theorem crossMeet_assoc (s t u : Finset α) :
    crossMeet meet (crossMeet meet s t) u = crossMeet meet s (crossMeet meet t u) := by
  ext e
  rw [mem_crossMeet, mem_crossMeet]
  constructor
  · rintro ⟨d, hd, c, hc, he⟩
    obtain ⟨a, ha, b, hb, hmeet⟩ := mem_crossMeet.mp hd
    have hboth : (meet a b).bind (fun d => meet d c) = some e :=
      bind_eq_some_iff.mpr ⟨d, hmeet, he⟩
    rw [h.assoc] at hboth
    obtain ⟨d', hd', he'⟩ := bind_eq_some_iff.mp hboth
    exact ⟨a, ha, d', mem_crossMeet.mpr ⟨b, hb, c, hc, hd'⟩, he'⟩
  · rintro ⟨a, ha, d, hd, he⟩
    obtain ⟨b, hb, c, hc, hmeet⟩ := mem_crossMeet.mp hd
    have hboth : (meet b c).bind (fun d => meet a d) = some e :=
      bind_eq_some_iff.mpr ⟨d, hmeet, he⟩
    rw [← h.assoc] at hboth
    obtain ⟨d', hd', he'⟩ := bind_eq_some_iff.mp hboth
    exact ⟨d', mem_crossMeet.mpr ⟨a, ha, b, hb, hd'⟩, c, hc, he'⟩

theorem subset_crossMeet_self (s : Finset α) : s ⊆ crossMeet meet s s :=
  fun a ha => mem_crossMeet.mpr ⟨a, ha, a, ha, h.self a⟩

/-- A set is its own cross product exactly when it is closed. -/
theorem crossMeet_self_iff : crossMeet meet s s = s ↔ MeetClosed meet s := by
  constructor
  · intro hsame a ha b hb c hmeet
    rw [← hsame]
    exact mem_crossMeet.mpr ⟨a, ha, b, hb, hmeet⟩
  · intro hclos
    refine Finset.Subset.antisymm (fun c hc => ?_) (h.subset_crossMeet_self s)
    obtain ⟨a, ha, b, hb, hmeet⟩ := mem_crossMeet.mp hc
    exact hclos a ha b hb c hmeet

/-- Meeting with `t` twice is meeting with it once exactly when what `s` shares with two grants
    of `t` it shares with one. -/
theorem crossMeet_absorb_iff : crossMeet meet (crossMeet meet s t) t = crossMeet meet s t ↔
      ∀ b ∈ t, ∀ b' ∈ t, ∀ d, meet b b' = some d → ∀ a ∈ s, ∀ c, meet a d = some c →
        c ∈ crossMeet meet s t := by
  rw [h.crossMeet_assoc]
  constructor
  · intro hsame b hb b' hb' d hd a ha c hc
    rw [← hsame]
    exact mem_crossMeet.mpr ⟨a, ha, d, mem_crossMeet.mpr ⟨b, hb, b', hb', hd⟩, hc⟩
  · intro habsorb
    refine Finset.Subset.antisymm (fun c hc => ?_) fun c hc => ?_
    · obtain ⟨a, ha, d, hd, hmeet⟩ := mem_crossMeet.mp hc
      obtain ⟨b, hb, b', hb', hd⟩ := mem_crossMeet.mp hd
      exact habsorb b hb b' hb' d hd a ha c hmeet
    · obtain ⟨a, ha, b, hb, hmeet⟩ := mem_crossMeet.mp hc
      exact mem_crossMeet.mpr ⟨a, ha, b, h.subset_crossMeet_self t hb, hmeet⟩

omit [DecidableEq α] in
/-- The same in uses: what two grants of a closed set share is what one of its grants allows. -/
theorem meetClosed_iff : MeetClosed meet s ↔ ∀ a ∈ s, ∀ b ∈ s, (∃ x, allows a x ∧ allows b x) →
      ∃ c ∈ s, ∀ x, allows c x ↔ allows a x ∧ allows b x := by
  constructor
  · rintro hclos a ha b hb ⟨x, hx⟩
    obtain ⟨c, hmeet, -⟩ := (h.shared a b x).mpr hx
    exact ⟨c, hclos a ha b hb c hmeet, h.eq_some_iff.mp hmeet⟩
  · intro hclos a ha b hb c hmeet
    have hallow := h.eq_some_iff.mp hmeet
    obtain ⟨x, hx⟩ := h.inhabited c
    obtain ⟨c', hc', hallow'⟩ := hclos a ha b hb ⟨x, (hallow x).mp hx⟩
    have hsame : c = c' := h.separated c c' fun y => (hallow y).trans (hallow' y).symm
    rwa [hsame]

/-- `crossMeet_absorb_iff` in uses. -/
theorem crossMeet_absorb_allows_iff : crossMeet meet (crossMeet meet s t) t = crossMeet meet s t ↔
      ∀ a ∈ s, ∀ b ∈ t, ∀ b' ∈ t, (∃ x, allows a x ∧ allows b x ∧ allows b' x) →
        ∃ a' ∈ s, ∃ b'' ∈ t, ∀ x, allows a' x ∧ allows b'' x ↔
          allows a x ∧ allows b x ∧ allows b' x := by
  rw [h.crossMeet_absorb_iff]
  constructor
  · rintro habsorb a ha b hb b' hb' ⟨x, hax, hx⟩
    obtain ⟨d, hd, hdx⟩ := (h.shared b b' x).mpr hx
    obtain ⟨c, hc, -⟩ := (h.shared a d x).mpr ⟨hax, hdx⟩
    obtain ⟨a', ha', b'', hb'', hmeet⟩ := mem_crossMeet.mp (habsorb b hb b' hb' d hd a ha c hc)
    refine ⟨a', ha', b'', hb'', fun y => ?_⟩
    rw [← h.eq_some_iff.mp hmeet, h.eq_some_iff.mp hc, h.eq_some_iff.mp hd]
  · intro habsorb b hb b' hb' d hd a ha c hc
    have hallow : ∀ x, allows c x ↔ allows a x ∧ allows b x ∧ allows b' x := fun x => by
      rw [h.eq_some_iff.mp hc, h.eq_some_iff.mp hd]
    obtain ⟨x, hx⟩ := h.inhabited c
    obtain ⟨a', ha', b'', hb'', hshared⟩ := habsorb a ha b hb b' hb' ⟨x, (hallow x).mp hx⟩
    refine mem_crossMeet.mpr ⟨a', ha', b'', hb'', h.eq_some_iff.mpr fun y => ?_⟩
    rw [hallow y, hshared y]

end Meets

/-! ## Counting overlaps -/

/-- The different non-empty sets of uses that a grant of `s` and a grant of `t` share. -/
def overlaps {α β : Type} (allows : α → β → Prop) (s t : Finset α) : Set (Set β) :=
  {uses | uses.Nonempty ∧ ∃ a ∈ s, ∃ b ∈ t, uses = {x | allows a x ∧ allows b x}}

/-- A cross product has one grant for each overlap. -/
theorem Meets.card_crossMeet {allows : α → β → Prop} (h : Meets meet allows) (s t : Finset α) :
    (crossMeet meet s t).card = (overlaps allows s t).ncard := by
  have himage : (fun c => {x | allows c x}) '' (crossMeet meet s t : Set α) =
      overlaps allows s t := by
    ext uses
    constructor
    · rintro ⟨c, hc, rfl⟩
      obtain ⟨a, ha, b, hb, hmeet⟩ := mem_crossMeet.mp (Finset.mem_coe.mp hc)
      refine ⟨h.inhabited c, a, ha, b, hb, ?_⟩
      exact Set.ext (h.eq_some_iff.mp hmeet)
    · rintro ⟨⟨x, hx⟩, a, ha, b, hb, rfl⟩
      obtain ⟨c, hmeet, -⟩ := (h.shared a b x).mpr hx
      refine ⟨c, Finset.mem_coe.mpr (mem_crossMeet.mpr ⟨a, ha, b, hb, hmeet⟩), ?_⟩
      exact Set.ext (h.eq_some_iff.mp hmeet)
  have hinj : Function.Injective fun c => {x | allows c x} := fun a b hsame =>
    h.separated a b (Set.ext_iff.mp hsame)
  rw [← himage, Set.ncard_image_of_injective _ hinj, Set.ncard_coe_finset]

end OctaCity.Lib
