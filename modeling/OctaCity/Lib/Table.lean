/-
  OctaCity.Lib.Table

  Rows ordered by a key read off the row itself: the model of an ordered map
  whose values carry their own key.  The strict key order is a field, so a
  table with a repeated key cannot be built, and two tables with the same rows
  are equal whatever order the rows arrived in.
-/
import Mathlib.Algebra.Order.BigOperators.Group.List
import Mathlib.Algebra.Order.Ring.Nat
import Mathlib.Data.List.Sort

namespace OctaCity.Lib

open List

variable {α κ : Type} [LinearOrder κ] {key : α → κ}

/-- Rows in strictly ascending order of `key`. -/
structure Table (key : α → κ) where
  rows : List α
  ordered : rows.Pairwise fun a b => key a < key b

namespace Table

/-! ## Lookup -/

def empty : Table key := ⟨[], List.Pairwise.nil⟩

def find? (t : Table key) (k : κ) : Option α := t.rows.find? fun a => key a = k

def contains (t : Table key) (k : κ) : Bool := t.rows.any fun a => key a = k

def size (t : Table key) : Nat := t.rows.length

@[ext] theorem ext {s t : Table key} (h : s.rows = t.rows) : s = t := by
  cases s
  cases t
  simp_all

theorem keys_nodup (t : Table key) : (t.rows.map key).Nodup := by
  rw [nodup_iff_pairwise_ne, pairwise_map]
  exact t.ordered.imp fun h => ne_of_lt h

theorem eq_of_key_eq (t : Table key) {a b : α} (ha : a ∈ t.rows) (hb : b ∈ t.rows)
    (h : key a = key b) : a = b :=
  inj_on_of_nodup_map t.keys_nodup ha hb h

theorem find?_eq_some_iff (t : Table key) (k : κ) (a : α) :
    t.find? k = some a ↔ a ∈ t.rows ∧ key a = k := by
  constructor
  · intro h
    exact ⟨mem_of_find?_eq_some h, by simpa using List.find?_some h⟩
  · rintro ⟨ha, rfl⟩
    cases hf : t.find? (key a) with
    | none =>
      have := List.find?_eq_none.mp hf a ha
      simp at this
    | some b =>
      have hb : b ∈ t.rows := mem_of_find?_eq_some hf
      have hk : key b = key a := by simpa using List.find?_some hf
      rw [t.eq_of_key_eq hb ha hk]

variable {t t' t'' : Table key}

theorem mem_of_find? {k : κ} {a : α} (h : t.find? k = some a) : a ∈ t.rows :=
  ((t.find?_eq_some_iff k a).mp h).1

theorem key_of_find? {k : κ} {a : α} (h : t.find? k = some a) : key a = k :=
  ((t.find?_eq_some_iff k a).mp h).2

theorem find?_of_mem (t : Table key) {a : α} (ha : a ∈ t.rows) : t.find? (key a) = some a :=
  (t.find?_eq_some_iff _ _).mpr ⟨ha, rfl⟩

theorem mem_iff_find? {a : α} : a ∈ t.rows ↔ t.find? (key a) = some a :=
  ⟨t.find?_of_mem, mem_of_find?⟩

theorem contains_iff (t : Table key) (k : κ) : t.contains k = true ↔ ∃ a ∈ t.rows, key a = k := by
  simp [contains, any_eq_true]

/-! ## Insertion -/

/-- Position of a new row among ordered rows. -/
def insertRow (key : α → κ) (a : α) : List α → List α
  | [] => [a]
  | b :: rest => if key a < key b then a :: b :: rest else b :: insertRow key a rest

theorem insertRow_perm (a : α) (rows : List α) : (insertRow key a rows).Perm (a :: rows) := by
  induction rows with
  | nil => exact List.Perm.refl _
  | cons b rest ih =>
    unfold insertRow
    split
    · exact List.Perm.refl _
    · exact (ih.cons b).trans (List.Perm.swap a b rest)

theorem insertRow_ordered (a : α) (rows : List α)
    (h : rows.Pairwise fun a b => key a < key b) (hfresh : ∀ b ∈ rows, key b ≠ key a) :
    (insertRow key a rows).Pairwise fun a b => key a < key b := by
  induction rows with
  | nil => exact pairwise_singleton _ _
  | cons b rest ih =>
    rw [pairwise_cons] at h
    unfold insertRow
    split
    · rename_i hlt
      refine List.Pairwise.cons ?_ (pairwise_cons.mpr h)
      intro c hc
      rcases mem_cons.mp hc with rfl | hc
      · exact hlt
      · exact hlt.trans (h.1 c hc)
    · rename_i hnlt
      refine List.Pairwise.cons ?_ (ih h.2 fun c hc => hfresh c (mem_cons_of_mem _ hc))
      intro c hc
      have hba : key b < key a :=
        lt_of_le_of_ne (not_lt.mp hnlt) (hfresh b (mem_cons_self ..))
      rcases mem_cons.mp ((insertRow_perm a rest).mem_iff.mp hc) with rfl | hc
      · exact hba
      · exact h.1 c hc

/-- Adds a row, or returns `none` when its key is already present. -/
def insert? (t : Table key) (a : α) : Option (Table key) :=
  if h : ∀ b ∈ t.rows, key b ≠ key a then
    some ⟨insertRow key a t.rows, insertRow_ordered a t.rows t.ordered h⟩
  else none

theorem insert?_eq_some {a : α} (h : t.insert? a = some t') :
    (∀ b ∈ t.rows, key b ≠ key a) ∧ t'.rows.Perm (a :: t.rows) := by
  unfold insert? at h
  split at h
  · rename_i hfresh
    cases h
    exact ⟨hfresh, insertRow_perm a t.rows⟩
  · cases h

theorem insert?_isSome (t : Table key) (a : α) (hfresh : ∀ b ∈ t.rows, key b ≠ key a) :
    ∃ t', t.insert? a = some t' := by
  unfold insert?
  rw [dif_pos hfresh]
  exact ⟨_, rfl⟩

/-- Adds rows in turn; the error names the first row whose key was taken. -/
def insertAll {ε : Type} (taken : α → ε) (t : Table key) : List α → Except ε (Table key)
  | [] => .ok t
  | a :: rest =>
    match t.insert? a with
    | none => .error (taken a)
    | some t' => t'.insertAll taken rest

theorem insertAll_eq_ok {ε : Type} {taken : α → ε} {rows : List α}
    (h : t.insertAll taken rows = .ok t') : t'.rows.Perm (rows ++ t.rows) := by
  induction rows generalizing t with
  | nil =>
    cases h
    exact List.Perm.refl _
  | cons a rest ih =>
    unfold insertAll at h
    split at h
    · cases h
    · rename_i t₁ h₁
      have hperm := (insert?_eq_some h₁).2
      exact (ih h).trans ((hperm.append_left rest).trans perm_middle)

theorem insertAll_isOk {ε : Type} (taken : α → ε) (rows : List α) (t : Table key)
    (h : ((rows ++ t.rows).map key).Nodup) : ∃ t', t.insertAll taken rows = .ok t' := by
  induction rows generalizing t with
  | nil => exact ⟨t, rfl⟩
  | cons a rest ih =>
    have hfresh : ∀ b ∈ t.rows, key b ≠ key a := by
      intro b hb heq
      simp only [cons_append, map_cons, nodup_cons] at h
      apply h.1
      rw [← heq]
      exact mem_map_of_mem (mem_append_right _ hb)
    obtain ⟨t₁, h₁⟩ := t.insert?_isSome a hfresh
    have hperm := (insert?_eq_some h₁).2
    obtain ⟨t', ht'⟩ := ih t₁ (by
      have hmove : (rest ++ t₁.rows).Perm (a :: rest ++ t.rows) :=
        (hperm.append_left rest).trans perm_middle
      exact (hmove.map key).nodup_iff.mpr h)
    exact ⟨t', by simp only [insertAll, h₁, ht']⟩

theorem eq_of_perm {s : Table key} (h : s.rows.Perm t.rows) : s = t := by
  apply ext
  refine h.eq_of_pairwise ?_ s.ordered t.ordered
  intro a b _ _ hab hba
  exact absurd (hab.trans hba) (lt_irrefl _)

/-- The rows of a table do not depend on the order they are added in. -/
theorem insertAll_perm {ε : Type} {taken : α → ε} {rows rows' : List α}
    (hp : rows'.Perm rows) (h : (empty : Table key).insertAll taken rows = .ok t) :
    (empty : Table key).insertAll taken rows' = .ok t := by
  have hrows : t.rows.Perm rows := by simpa [empty] using insertAll_eq_ok h
  have hnodup : ((rows' ++ (empty : Table key).rows).map key).Nodup := by
    have := t.keys_nodup
    rw [(hrows.map key).nodup_iff] at this
    simpa [empty] using (hp.map key).nodup_iff.mpr this
  obtain ⟨t', ht'⟩ := insertAll_isOk taken rows' empty hnodup
  have hrows' : t'.rows.Perm rows' := by simpa [empty] using insertAll_eq_ok ht'
  rw [ht', eq_of_perm (hrows'.trans (hp.trans hrows.symm))]

/-! ## Update in place -/

/-- Applies a key-preserving change to every row. -/
def mapRows (t : Table key) (f : α → α) (hkey : ∀ a, key (f a) = key a) : Table key where
  rows := t.rows.map f
  ordered := by
    rw [pairwise_map]
    exact t.ordered.imp fun h => by rw [hkey, hkey]; exact h

@[simp] theorem mapRows_rows (t : Table key) (f : α → α) (hkey : ∀ a, key (f a) = key a) :
    (t.mapRows f hkey).rows = t.rows.map f := rfl

theorem mapRows_find? (t : Table key) (f : α → α) (hkey : ∀ a, key (f a) = key a) (k : κ) :
    (t.mapRows f hkey).find? k = (t.find? k).map f := by
  unfold find?
  rw [mapRows_rows, List.find?_map]
  have hcomp : ((fun a => decide (key a = k)) ∘ f) = fun a => decide (key a = k) := by
    funext a
    simp only [Function.comp_apply, hkey]
  rw [hcomp]

theorem mapRows_contains (t : Table key) (f : α → α) (hkey : ∀ a, key (f a) = key a) (k : κ) :
    (t.mapRows f hkey).contains k = t.contains k := by
  simp [contains, any_map, Function.comp_def, hkey]

/-- Two changes in turn are one change. -/
theorem mapRows_mapRows (t : Table key) (f g : α → α) (hf : ∀ a, key (f a) = key a)
    (hg : ∀ a, key (g a) = key a) :
    (t.mapRows f hf).mapRows g hg = t.mapRows (fun a => g (f a)) fun a => (hg _).trans (hf a) := by
  apply ext
  simp

/-- Applies a key-preserving change to the rows of a kind. -/
def updateWhere (t : Table key) (p : α → Bool) (f : α → α) (hkey : ∀ a, key (f a) = key a) :
    Table key :=
  t.mapRows (fun a => if p a then f a else a) fun a => by
    split
    · exact hkey a
    · rfl

theorem mem_updateWhere {p : α → Bool} {f : α → α} {hkey : ∀ a, key (f a) = key a} {b : α} :
    b ∈ (t.updateWhere p f hkey).rows ↔ ∃ a ∈ t.rows, (if p a then f a else a) = b := by
  rw [updateWhere, mapRows_rows, mem_map]

theorem find?_updateWhere (t : Table key) (p : α → Bool) (f : α → α)
    (hkey : ∀ a, key (f a) = key a) (k : κ) :
    (t.updateWhere p f hkey).find? k = (t.find? k).map fun a => if p a then f a else a :=
  t.mapRows_find? _ _ k

theorem find?_updateWhere_of_some {p : α → Bool} {f : α → α}
    (hkey : ∀ a, key (f a) = key a) {k : κ} {a : α} (h : t.find? k = some a) :
    (t.updateWhere p f hkey).find? k = some (if p a then f a else a) := by
  rw [find?_updateWhere, h]
  rfl

/-! ## Removal and replacement -/

/-- Drops the rows of a kind. -/
def deleteWhere (t : Table key) (p : α → Bool) : Table key where
  rows := t.rows.filter fun a => !p a
  ordered := t.ordered.sublist filter_sublist

theorem mem_deleteWhere {p : α → Bool} {a : α} :
    a ∈ (t.deleteWhere p).rows ↔ a ∈ t.rows ∧ p a = false := by
  simp [deleteWhere, mem_filter]

/-- Drops the row of a key, if there is one. -/
def erase (t : Table key) (k : κ) : Table key where
  rows := t.rows.filter fun a => key a ≠ k
  ordered := t.ordered.sublist filter_sublist

theorem mem_erase {k : κ} {a : α} : a ∈ (t.erase k).rows ↔ a ∈ t.rows ∧ key a ≠ k := by
  simp [erase, mem_filter]

/-- Adds a row in place of the row of its key. -/
def put (t : Table key) (a : α) : Table key where
  rows := insertRow key a (t.erase (key a)).rows
  ordered := insertRow_ordered a _ (t.erase (key a)).ordered fun _ hb => (mem_erase.mp hb).2

theorem mem_put {a b : α} : b ∈ (t.put a).rows ↔ b = a ∨ b ∈ t.rows ∧ key b ≠ key a := by
  unfold put
  rw [(insertRow_perm a (t.erase (key a)).rows).mem_iff, mem_cons, mem_erase]

theorem find?_eq_none_iff {k : κ} : t.find? k = none ↔ ∀ a ∈ t.rows, key a ≠ k := by
  simp [find?, List.find?_eq_none]

/-- A row of a fresh key is added. -/
theorem put_rows_perm {a : α} (hfresh : ∀ b ∈ t.rows, key b ≠ key a) :
    (t.put a).rows.Perm (a :: t.rows) := by
  have herase : (t.erase (key a)).rows = t.rows :=
    filter_eq_self.mpr fun b hb => by simpa using hfresh b hb
  have hput : (t.put a).rows.Perm (a :: (t.erase (key a)).rows) :=
    insertRow_perm a (t.erase (key a)).rows
  rw [herase] at hput
  exact hput

/-- Rows put one after the other, a later row in place of the row of its key. -/
def putAll (rows : List α) : Table key := rows.foldl put empty

theorem foldl_put_perm {rows : List α} (h : ((t.rows ++ rows).map key).Nodup) :
    (rows.foldl put t).rows.Perm (t.rows ++ rows) := by
  induction rows generalizing t with
  | nil => simp
  | cons a rest ih =>
    have hfresh : ∀ b ∈ t.rows, key b ≠ key a := by
      intro b hb heq
      rw [map_append, nodup_append] at h
      exact h.2.2 _ (mem_map_of_mem hb) _ (mem_map_of_mem mem_cons_self) heq
    have hput : (t.put a).rows.Perm (a :: t.rows) := put_rows_perm hfresh
    have hmoved : ((t.put a).rows ++ rest).Perm (t.rows ++ a :: rest) :=
      (hput.append_right rest).trans perm_middle.symm
    exact (ih ((hmoved.map key).nodup_iff.mpr h)).trans hmoved

theorem putAll_rows_perm {rows : List α} (h : (rows.map key).Nodup) :
    (putAll rows : Table key).rows.Perm rows :=
  foldl_put_perm (t := empty) h

@[simp] theorem putAll_rows (t : Table key) : (putAll t.rows : Table key) = t :=
  eq_of_perm (putAll_rows_perm t.keys_nodup)

/-- Rows of other keys stay. -/
theorem find?_erase_of_ne {k k' : κ} (hne : k' ≠ k) : (t.erase k).find? k' = t.find? k' := by
  apply Option.ext
  intro a
  rw [find?_eq_some_iff, find?_eq_some_iff, mem_erase]
  constructor
  · rintro ⟨⟨ha, -⟩, hk⟩
    exact ⟨ha, hk⟩
  · rintro ⟨ha, hk⟩
    exact ⟨⟨ha, by rw [hk]; exact hne⟩, hk⟩

@[simp] theorem find?_erase_self {k : κ} : (t.erase k).find? k = none :=
  find?_eq_none_iff.mpr fun _ ha => (mem_erase.mp ha).2

@[simp] theorem find?_put_self {a : α} : (t.put a).find? (key a) = some a :=
  (find?_eq_some_iff _ _ _).mpr ⟨mem_put.mpr (Or.inl rfl), rfl⟩

theorem find?_put_of_ne {a : α} {k : κ} (hne : k ≠ key a) : (t.put a).find? k = t.find? k := by
  apply Option.ext
  intro b
  rw [find?_eq_some_iff, find?_eq_some_iff, mem_put]
  constructor
  · rintro ⟨rfl | ⟨hb, -⟩, hk⟩
    · exact absurd hk.symm hne
    · exact ⟨hb, hk⟩
  · rintro ⟨hb, hk⟩
    exact ⟨Or.inr ⟨hb, by rw [hk]; exact hne⟩, hk⟩

/-- A fresh row is found under its key, and every other lookup is unchanged. -/
theorem find?_insert? {a : α} (h : t.insert? a = some t') (k : κ) :
    t'.find? k = if key a = k then some a else t.find? k := by
  obtain ⟨hfresh, hperm⟩ := insert?_eq_some h
  apply Option.ext
  intro b
  rw [find?_eq_some_iff, hperm.mem_iff, mem_cons]
  by_cases hk : key a = k
  · rw [if_pos hk, Option.some_inj]
    constructor
    · rintro ⟨rfl | hb, hbk⟩
      · rfl
      · exact absurd (hbk.trans hk.symm) (hfresh b hb)
    · rintro rfl
      exact ⟨Or.inl rfl, hk⟩
  · rw [if_neg hk, find?_eq_some_iff]
    constructor
    · rintro ⟨rfl | hb, hbk⟩
      · exact absurd hbk hk
      · exact ⟨hb, hbk⟩
    · rintro ⟨hb, hbk⟩
      exact ⟨Or.inr hb, hbk⟩

/-! ## One row set -/

/-- The row of one key is set, and every other lookup is unchanged. -/
def Sets (t t' : Table key) (a : α) : Prop :=
  t'.find? (key a) = some a ∧ ∀ k, k ≠ key a → t'.find? k = t.find? k

theorem Sets.refl {a : α} (h : t.find? (key a) = some a) : t.Sets t a :=
  ⟨h, fun _ _ => rfl⟩

theorem Sets.trans {a b : α} (h : t.Sets t' a) (h' : t'.Sets t'' b)
    (hkey : key b = key a) : t.Sets t'' b :=
  ⟨h'.1, fun k hk => (h'.2 k hk).trans (h.2 k (hkey ▸ hk))⟩

theorem Sets.mem_iff {a b : α} (h : t.Sets t' a) :
    b ∈ t'.rows ↔ b = a ∨ b ∈ t.rows ∧ key b ≠ key a := by
  rw [mem_iff_find?, mem_iff_find?]
  by_cases hkey : key b = key a
  · rw [hkey, h.1]
    simp [eq_comm]
  · rw [h.2 _ hkey]
    constructor
    · exact fun hb => Or.inr ⟨hb, hkey⟩
    · rintro (rfl | ⟨hb, -⟩)
      · exact absurd rfl hkey
      · exact hb

theorem sets_put (t : Table key) (a : α) : t.Sets (t.put a) a :=
  ⟨find?_put_self, fun _ hk => find?_put_of_ne hk⟩

theorem sets_updateWhere {k : κ} {a : α} {p : α → Bool}
    (h : t.find? k = some a) (hp : ∀ b, p b = true ↔ key b = k) (f : α → α)
    (hkey : ∀ a, key (f a) = key a) : t.Sets (t.updateWhere p f hkey) (f a) := by
  have hk : key (f a) = k := (hkey a).trans (key_of_find? h)
  refine ⟨?_, fun k' hk' => ?_⟩
  · rw [hk, find?_updateWhere_of_some hkey h, if_pos ((hp a).mpr (key_of_find? h))]
  · rw [find?_updateWhere]
    cases hb : t.find? k' with
    | none => rfl
    | some b =>
      have hne : ¬ p b = true := by
        rw [hp, key_of_find? hb, ← hk]
        exact hk'
      show some (if p b = true then f b else b) = some b
      rw [if_neg hne]

theorem sets_insert? {a : α} (h : t.insert? a = some t') : t.Sets t' a := by
  refine ⟨?_, fun k hk => ?_⟩
  · rw [find?_insert? h, if_pos rfl]
  · rw [find?_insert? h, if_neg (Ne.symm hk)]

/-! ## Growth -/

/-- Every row is still there, changed as `follows` allows. -/
def Grows (follows : α → α → Prop) (t t' : Table key) : Prop :=
  ∀ k a, t.find? k = some a → ∃ a', t'.find? k = some a' ∧ follows a a'

variable {follows : α → α → Prop}

theorem Grows.refl (hrefl : ∀ a, follows a a) (t : Table key) : t.Grows follows t :=
  fun _ a ha => ⟨a, ha, hrefl a⟩

theorem Grows.trans (htrans : ∀ a b c, follows a b → follows b c → follows a c)
    (h : t.Grows follows t') (h' : t'.Grows follows t'') : t.Grows follows t'' := by
  intro k a ha
  obtain ⟨b, hb, hab⟩ := h k a ha
  obtain ⟨c, hc, hbc⟩ := h' k b hb
  exact ⟨c, hc, htrans a b c hab hbc⟩

/-- Setting one row to one that follows it. -/
theorem Sets.grows (hrefl : ∀ a, follows a a) {a a' : α} (h : t.Sets t' a')
    (hfind : t.find? (key a') = some a) (hfol : follows a a') : t.Grows follows t' := by
  intro k b hb
  by_cases hk : k = key a'
  · subst hk
    cases hfind.symm.trans hb
    exact ⟨a', h.1, hfol⟩
  · exact ⟨b, (h.2 k hk).trans hb, hrefl b⟩

/-- What holds of all rows holds after one more row that satisfies it is set. -/
theorem Sets.forall_mem {P : α → Prop} {a : α} (h : t.Sets t' a) (ha : P a)
    (hall : ∀ b ∈ t.rows, P b) : ∀ b ∈ t'.rows, P b := by
  intro b hb
  rcases h.mem_iff.mp hb with rfl | ⟨hb, -⟩
  · exact ha
  · exact hall b hb

theorem Grows.insert? (hrefl : ∀ a, follows a a) {a : α}
    (h : t.insert? a = some t') : t.Grows follows t' := by
  intro k b hb
  refine ⟨b, ?_, hrefl b⟩
  rw [find?_insert? h, if_neg, hb]
  intro hk
  obtain ⟨hmem, hbk⟩ := (t.find?_eq_some_iff k b).mp hb
  exact (insert?_eq_some h).1 b hmem (hbk.trans hk.symm)

theorem insertAll_cons {ε : Type} {taken : α → ε} {a : α} {rows : List α}
    (h : t.insertAll taken (a :: rows) = .ok t') :
    ∃ t₁, t.insert? a = some t₁ ∧ t₁.insertAll taken rows = .ok t' := by
  unfold insertAll at h
  split at h
  · cases h
  · rename_i t₁ h₁
    exact ⟨t₁, h₁, h⟩

/-- Every row is still there, and a row that was not there is `new`. -/
structure Evolves (follows : α → α → Prop) (new : α → Prop) (t t' : Table key) : Prop where
  grows : t.Grows follows t'
  origin : ∀ k a', t'.find? k = some a' →
    (∃ a, t.find? k = some a ∧ follows a a') ∨ t.find? k = none ∧ new a'

variable {new : α → Prop}

theorem Evolves.refl (hrefl : ∀ a, follows a a) (t : Table key) : t.Evolves follows new t :=
  ⟨.refl hrefl t, fun _ a ha => .inl ⟨a, ha, hrefl a⟩⟩

theorem Evolves.trans (htrans : ∀ a b c, follows a b → follows b c → follows a c)
    (hnew : ∀ a b, new a → follows a b → new b)
    (h : t.Evolves follows new t') (h' : t'.Evolves follows new t'') : t.Evolves follows new t'' := by
  refine ⟨h.grows.trans htrans h'.grows, fun k c hc => ?_⟩
  obtain ⟨b, hb, hbc⟩ | ⟨hnone, hc⟩ := h'.origin k c hc
  · obtain ⟨a, ha, hab⟩ | ⟨hnone, hb'⟩ := h.origin k b hb
    · exact .inl ⟨a, ha, htrans a b c hab hbc⟩
    · exact .inr ⟨hnone, hnew b c hb' hbc⟩
  · refine .inr ⟨?_, hc⟩
    cases ha : t.find? k with
    | none => rfl
    | some a =>
      obtain ⟨b, hb, -⟩ := h.grows k a ha
      rw [hnone] at hb
      cases hb

/-- A change in place adds no row. -/
theorem Evolves.mapRows {f : α → α} (hkey : ∀ a, key (f a) = key a)
    (hf : ∀ k a, t.find? k = some a → follows a (f a)) : t.Evolves follows new (t.mapRows f hkey) := by
  constructor
  · intro k a ha
    exact ⟨f a, by rw [mapRows_find?, ha]; rfl, hf k a ha⟩
  · intro k b hb
    rw [mapRows_find?, Option.map_eq_some_iff] at hb
    obtain ⟨a, ha, rfl⟩ := hb
    exact .inl ⟨a, ha, hf k a ha⟩

theorem Evolves.updateWhere (hrefl : ∀ a, follows a a) {p : α → Bool} {f : α → α}
    (hkey : ∀ a, key (f a) = key a)
    (hf : ∀ k a, t.find? k = some a → p a = true → follows a (f a)) :
    t.Evolves follows new (t.updateWhere p f hkey) := by
  refine Evolves.mapRows _ fun k a ha => ?_
  split
  · rename_i hp
    exact hf k a ha hp
  · exact hrefl a

theorem Grows.updateWhere (hrefl : ∀ a, follows a a) {p : α → Bool} {f : α → α}
    (hkey : ∀ a, key (f a) = key a)
    (hf : ∀ k a, t.find? k = some a → p a = true → follows a (f a)) :
    t.Grows follows (t.updateWhere p f hkey) := by
  have hevos : t.Evolves follows (fun _ => True) (t.updateWhere p f hkey) :=
    .updateWhere hrefl hkey hf
  exact hevos.grows

theorem Evolves.insert? (hrefl : ∀ a, follows a a) {a : α} (hnew : new a)
    (h : t.insert? a = some t') : t.Evolves follows new t' := by
  refine ⟨.insert? hrefl h, fun k b hb => ?_⟩
  rw [find?_insert? h] at hb
  split at hb
  · rename_i hk
    cases hb
    refine .inr ⟨find?_eq_none_iff.mpr ?_, hnew⟩
    rw [← hk]
    exact (insert?_eq_some h).1
  · exact .inl ⟨b, hb, hrefl b⟩

theorem Evolves.insertAll (hrefl : ∀ a, follows a a)
    (htrans : ∀ a b c, follows a b → follows b c → follows a c)
    (hstay : ∀ a b, new a → follows a b → new b) {ε : Type} {taken : α → ε} {rows : List α}
    (hnew : ∀ a ∈ rows, new a) (h : t.insertAll taken rows = .ok t') :
    t.Evolves follows new t' := by
  induction rows generalizing t with
  | nil =>
    cases h
    exact .refl hrefl _
  | cons a rest ih =>
    obtain ⟨t₁, h₁, h⟩ := insertAll_cons h
    exact (Evolves.insert? hrefl (hnew a (mem_cons_self ..)) h₁).trans htrans hstay
      (ih (fun b hb => hnew b (mem_cons_of_mem _ hb)) h)

/-- The rows after an insertion: the new ones and the old ones. -/
theorem mem_insertAll {ε : Type} {taken : α → ε} {rows : List α} {a : α}
    (h : t.insertAll taken rows = .ok t') : a ∈ t'.rows ↔ a ∈ rows ∨ a ∈ t.rows := by
  rw [(insertAll_eq_ok h).mem_iff, mem_append]

/-- No inserted key was there before. -/
theorem insertAll_fresh {ε : Type} {taken : α → ε} {rows : List α} {a : α}
    (h : t.insertAll taken rows = .ok t') (ha : a ∈ rows) : t.find? (key a) = none := by
  have hnodup : ((rows ++ t.rows).map key).Nodup :=
    ((insertAll_eq_ok h).map key).nodup_iff.mp t'.keys_nodup
  rw [map_append, nodup_append] at hnodup
  rw [find?_eq_none_iff]
  intro b hb heq
  exact hnodup.2.2 _ (mem_map_of_mem ha) _ (mem_map_of_mem hb) heq.symm

theorem mem_insert? {a b : α} (h : t.insert? a = some t') : b ∈ t'.rows ↔ b = a ∨ b ∈ t.rows := by
  rw [(insert?_eq_some h).2.mem_iff, mem_cons]

omit [LinearOrder κ] in
/-- Keys of distinct rows, as many as are listed and each of them listed, are the list. -/
theorem perm_of_length {ids : List κ} {ks : List κ} (hnodup : ks.Nodup) (hsub : ks ⊆ ids)
    (hlen : ks.length = ids.length) : ks.Perm ids :=
  (subperm_of_subset hnodup hsub).perm_of_length_le hlen.ge

omit [LinearOrder κ] in
/-- Rows of a kind carry distinct listed fields.  As many of them are counted as
    fields are listed exactly when each listed field has one. -/
theorem countP_eq_length_iff {rows : List α} {p : α → Bool} {ids : List κ}
    (hnodup : ((rows.filter p).map key).Nodup) (hp : ∀ a ∈ rows, p a = true → key a ∈ ids)
    (hids : ids.Nodup) :
    rows.countP p = ids.length ↔ ∀ id ∈ ids, ∃ a ∈ rows, p a = true ∧ key a = id := by
  have hsub : (rows.filter p).map key ⊆ ids := by
    intro k hk
    obtain ⟨a, ha, rfl⟩ := mem_map.mp hk
    exact hp a (mem_filter.mp ha).1 (mem_filter.mp ha).2
  have hlen : rows.countP p = ((rows.filter p).map key).length := by
    rw [length_map, countP_eq_length_filter]
  rw [hlen]
  constructor
  · intro h id hid
    obtain ⟨a, ha, rfl⟩ := mem_map.mp ((perm_of_length hnodup hsub h).mem_iff.mpr hid)
    exact ⟨a, (mem_filter.mp ha).1, (mem_filter.mp ha).2, rfl⟩
  · intro h
    have hlist : ids ⊆ (rows.filter p).map key := by
      intro id hid
      obtain ⟨a, ha, hpa, rfl⟩ := h id hid
      exact mem_map_of_mem (mem_filter.mpr ⟨ha, hpa⟩)
    exact ((subperm_of_subset hnodup hsub).antisymm
      (subperm_of_subset hids hlist)).length_eq

/-- When as many rows of a kind are counted as keys are listed, each listed key has one. -/
theorem exists_of_countP {ids : List κ} {p : α → Bool}
    (hp : ∀ a, p a = true → key a ∈ ids) (h : t.rows.countP p = ids.length) {k : κ}
    (hk : k ∈ ids) : ∃ a, t.find? k = some a ∧ p a = true := by
  have hnodup : ((t.rows.filter p).map key).Nodup :=
    t.keys_nodup.sublist (filter_sublist.map key)
  have hsub : (t.rows.filter p).map key ⊆ ids := by
    intro k hk
    obtain ⟨a, ha, rfl⟩ := mem_map.mp hk
    exact hp a (mem_filter.mp ha).2
  have hlen : ((t.rows.filter p).map key).length = ids.length := by
    rw [length_map, ← countP_eq_length_filter, h]
  obtain ⟨a, ha, rfl⟩ := mem_map.mp ((perm_of_length hnodup hsub hlen).mem_iff.mpr hk)
  exact ⟨a, t.find?_of_mem (mem_filter.mp ha).1, (mem_filter.mp ha).2⟩

theorem countP_of_contains {ids : List κ} {p : α → Bool} (hids : ids.Nodup)
    (hp : ∀ a, p a = true ↔ key a ∈ ids) (h : ∀ id ∈ ids, t.contains id = true) :
    t.rows.countP p = ids.length := by
  refine (countP_eq_length_iff (t.keys_nodup.sublist (filter_sublist.map key))
    (fun a _ ha => (hp a).mp ha) hids).mpr fun id hid => ?_
  obtain ⟨a, ha, rfl⟩ := (t.contains_iff id).mp (h id hid)
  exact ⟨a, ha, (hp a).mpr hid, rfl⟩

omit [LinearOrder κ] in
/-- Rows that keep the key of what they are computed from are part of its keys. -/
theorem filterMap_keys_sublist {β : Type} {f : α → Option β} {g : β → κ}
    (hfg : ∀ a b, f a = some b → g b = key a) (l : List α) :
    ((l.filterMap f).map g).Sublist (l.map key) := by
  induction l with
  | nil => exact .slnil
  | cons a rest ih =>
    cases hf : f a with
    | none =>
      rw [filterMap_cons_none hf, map_cons]
      exact ih.cons _
    | some b =>
      rw [filterMap_cons_some hf, map_cons, map_cons, hfg a b hf]
      exact ih.cons_cons _

theorem contains_eq_isSome (t : Table key) (k : κ) : t.contains k = (t.find? k).isSome := by
  rw [Bool.eq_iff_iff, contains_iff, Option.isSome_iff_exists]
  constructor
  · rintro ⟨a, ha, rfl⟩
    exact ⟨a, t.find?_of_mem ha⟩
  · rintro ⟨a, ha⟩
    exact ⟨a, (t.find?_eq_some_iff k a).mp ha⟩

end Table

/-- Looking up a key among rows with distinct keys. -/
theorem find?_key_eq_some {β ι : Type} [DecidableEq ι] {field : β → ι} {rows : List β}
    (hnodup : (rows.map field).Nodup) {k : ι} {a : β} :
    rows.find? (fun b => field b = k) = some a ↔ a ∈ rows ∧ field a = k := by
  constructor
  · intro h
    exact ⟨mem_of_find?_eq_some h, by simpa using List.find?_some h⟩
  · rintro ⟨ha, rfl⟩
    cases hf : rows.find? (fun b => field b = field a) with
    | none => simpa using List.find?_eq_none.mp hf a ha
    | some b =>
      have hb : field b = field a := by simpa using List.find?_some hf
      rw [inj_on_of_nodup_map hnodup (mem_of_find?_eq_some hf) ha hb]

/-! # Sums over tables

Totals over the rows of a table, and what an insertion, an update in place and
a deletion change of them.
-/

namespace Table

variable {t t' : Table key} {f g : α → Nat}

/-- The sum of a measure over all rows. -/
def total (t : Table key) (f : α → Nat) : Nat := (t.rows.map f).sum

theorem total_mono (h : ∀ a ∈ t.rows, f a ≤ g a) : t.total f ≤ t.total g :=
  sum_le_sum h

theorem total_insert? {a : α} (h : t.insert? a = some t') : t'.total f = f a + t.total f := by
  have hperm := (insert?_eq_some h).2
  rw [total, total, (hperm.map f).sum_eq, map_cons, sum_cons]

theorem total_updateWhere (p : α → Bool) (change : α → α) (hkey : ∀ a, key (change a) = key a) :
    (t.updateWhere p change hkey).total f = t.total fun a => f (if p a then change a else a) := by
  rw [total, updateWhere, mapRows_rows, map_map]
  rfl

theorem total_deleteWhere_le (p : α → Bool) : (t.deleteWhere p).total f ≤ t.total f :=
  (filter_sublist.map f).sum_le_sum fun _ _ => Nat.zero_le _

/-- A measure that grows at one key only grows by what it grows there. -/
theorem total_le_of_key {k : κ} {extra : Nat} (hother : ∀ a ∈ t.rows, key a ≠ k → g a ≤ f a)
    (hkey : ∀ a, t.find? k = some a → g a ≤ f a + extra) : t.total g ≤ t.total f + extra := by
  classical
  by_cases hfound : ∃ a ∈ t.rows, key a = k
  · obtain ⟨a, ha, rfl⟩ := hfound
    have hperm := perm_cons_erase ha
    have hrest : ∀ b ∈ t.rows.erase a, g b ≤ f b := by
      intro b hb
      refine hother b (mem_of_mem_erase hb) fun hsame => ?_
      have hnodup : t.rows.Nodup := t.keys_nodup.of_map
      have hne := (hnodup.mem_erase_iff.mp hb).1
      exact hne (t.eq_of_key_eq (mem_of_mem_erase hb) ha hsame)
    have hown := hkey a (t.find?_of_mem ha)
    have hsum := sum_le_sum hrest
    rw [total, total, (hperm.map g).sum_eq, (hperm.map f).sum_eq, map_cons, map_cons,
      sum_cons, sum_cons]
    omega
  · refine Nat.le_trans (total_mono fun a ha => hother a ha fun hsame => ?_) (Nat.le_add_right _ _)
    exact hfound ⟨a, ha, hsame⟩

/-- An update in place of one key adds what the measure grows at that key. -/
theorem total_updateWhere_le {p : α → Bool} {change : α → α} (hkey : ∀ a, key (change a) = key a)
    {k : κ} {extra : Nat} (hother : ∀ a ∈ t.rows, key a ≠ k → g (if p a then change a else a) ≤ f a)
    (hown : ∀ a, t.find? k = some a → g (if p a then change a else a) ≤ f a + extra) :
    (t.updateWhere p change hkey).total g ≤ t.total f + extra := by
  rw [total_updateWhere]
  exact total_le_of_key hother hown

end Table

/-! # Ordered sets

Ordered sets: tables whose rows are their own keys, so that the elements
are listed once each, in ascending order.
-/

variable [LinearOrder α]

abbrev OrdSet (α : Type) [LinearOrder α] := Table (id : α → α)

namespace OrdSet

def insert (s : OrdSet α) (a : α) : OrdSet α := (s.insert? a).getD s

def ofList (l : List α) : OrdSet α := l.foldl insert Table.empty

theorem mem_insert {s : OrdSet α} {a b : α} : b ∈ (insert s a).rows ↔ b = a ∨ b ∈ s.rows := by
  unfold insert
  cases h : s.insert? a with
  | some t =>
    rw [Option.getD_some, (Table.insert?_eq_some h).2.mem_iff, mem_cons]
  | none =>
    rw [Option.getD_none]
    constructor
    · exact Or.inr
    · rintro (rfl | hb)
      · by_contra hfresh
        obtain ⟨t, ht⟩ := s.insert?_isSome b fun c hc (heq : c = b) => hfresh (heq ▸ hc)
        rw [h] at ht
        cases ht
      · exact hb

theorem mem_foldl_insert {l : List α} {s : OrdSet α} {b : α} :
    b ∈ (l.foldl insert s).rows ↔ b ∈ l ∨ b ∈ s.rows := by
  induction l generalizing s with
  | nil => simp
  | cons a rest ih =>
    rw [foldl_cons, ih, mem_insert, mem_cons]
    tauto

theorem mem_ofList {l : List α} {b : α} : b ∈ (ofList l).rows ↔ b ∈ l := by
  rw [ofList, mem_foldl_insert]
  simp [Table.empty]

theorem head_le {s : OrdSet α} {a b : α} {rest : List α} (h : s.rows = a :: rest)
    (hb : b ∈ s.rows) : a ≤ b := by
  have hord := s.ordered
  rw [h] at hord hb
  rcases mem_cons.mp hb with rfl | hb
  · exact le_refl _
  · exact le_of_lt ((pairwise_cons.mp hord).1 b hb)

end OrdSet

end OctaCity.Lib
