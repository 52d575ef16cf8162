/-
  OctaCity.Lib.Result

  Fallible computations: how a successful `bind`, `mapM` or `forM` splits into
  its successful parts, and the `ok_or` conversion from an optional value.
-/
import Mathlib.Data.List.Forall2

namespace OctaCity.Lib

open List

variable {ε α β : Type}

/-- The value of an option, or the given error. -/
def okOr (value : Option α) (error : ε) : Except ε α :=
  match value with
  | some a => .ok a
  | none => .error error

@[simp] theorem okOr_some (a : α) (error : ε) : okOr (some a) error = .ok a := rfl

@[simp] theorem okOr_none (error : ε) : okOr (none : Option α) error = .error error := rfl

@[simp] theorem okOr_eq_ok {value : Option α} {error : ε} {a : α} :
    okOr value error = .ok a ↔ value = some a := by
  cases value <;> simp

theorem bind_eq_ok {x : Except ε α} {f : α → Except ε β} {b : β} :
    x >>= f = .ok b ↔ ∃ a, x = .ok a ∧ f a = .ok b := by
  cases x with
  | error e =>
    constructor
    · intro h
      cases h
    · rintro ⟨a, ha, -⟩
      cases ha
  | ok a =>
    constructor
    · exact fun h => ⟨a, rfl, h⟩
    · rintro ⟨a', ha, h⟩
      cases ha
      exact h

theorem bind_eq_error {x : Except ε α} {f : α → Except ε β} {error : ε} :
    x >>= f = .error error ↔ x = .error error ∨ ∃ a, x = .ok a ∧ f a = .error error := by
  cases x with
  | error e =>
    constructor
    · intro h
      cases h
      exact .inl rfl
    · rintro (h | ⟨a, ha, -⟩)
      · cases h
        rfl
      · cases ha
  | ok a =>
    constructor
    · exact fun h => .inr ⟨a, rfl, h⟩
    · rintro (h | ⟨a', ha, h⟩)
      · cases h
      · cases ha
        exact h

/-- A check followed by the rest. -/
theorem check_eq_ok {x : Except ε Unit} {f : Unit → Except ε β} {b : β} :
    x >>= f = .ok b ↔ x = .ok () ∧ f () = .ok b := by
  rw [bind_eq_ok]
  exact ⟨fun ⟨_, hx, h⟩ => ⟨hx, h⟩, fun ⟨hx, h⟩ => ⟨(), hx, h⟩⟩

/-- A guard that raises an error when its condition holds. -/
theorem guard_eq_ok {p : Prop} [Decidable p] {error : ε} {rest : Except ε α} {a : α} :
    (if p then .error error else rest) = .ok a ↔ ¬ p ∧ rest = .ok a := by
  by_cases h : p <;> simp [h]

theorem map_eq_ok {x : Except ε α} {f : α → β} {b : β} :
    x.map f = .ok b ↔ ∃ a, x = .ok a ∧ f a = b := by
  cases x <;> simp [Except.map]

/-- Changing the error of a computation keeps its result. -/
theorem mapError_eq_ok {ε' : Type} {x : Except ε α} {f : ε → ε'} {a : α} :
    x.mapError f = .ok a ↔ x = .ok a := by
  cases x <;> simp [Except.mapError]

theorem mapError_eq_error {ε' : Type} {x : Except ε α} {f : ε → ε'} {error : ε'} :
    x.mapError f = .error error ↔ ∃ e, x = .error e ∧ f e = error := by
  cases x <;> simp [Except.mapError]

/-- The error of a failed computation. -/
def errorOf : Except ε α → Option ε
  | .ok _ => none
  | .error error => some error

theorem errorOf_eq_some {x : Except ε α} {error : ε} : errorOf x = some error ↔ x = .error error := by
  cases x <;> simp [errorOf]

theorem toOption_eq_some {x : Except ε α} {a : α} : x.toOption = some a ↔ x = .ok a := by
  cases x <;> simp [Except.toOption]

/-- The second part of a successful pair. -/
theorem map_snd_eq_ok {x : Except ε (α × β)} {b : β} (h : x.map (·.2) = .ok b) :
    ∃ a, x = .ok (a, b) := by
  cases x with
  | error e => cases h
  | ok p =>
    cases h
    exact ⟨p.1, rfl⟩

/-- The first part of a successful pair. -/
theorem map_fst_eq_ok {x : Except ε (α × β)} {a : α} (h : x.map (·.1) = .ok a) :
    ∃ b, x = .ok (a, b) := by
  cases x with
  | error e => cases h
  | ok p =>
    cases h
    exact ⟨p.2, rfl⟩

theorem forall₂_exists_left {r : α → β → Prop} {xs : List α} {ys : List β}
    (h : List.Forall₂ r xs ys) {y : β} (hy : y ∈ ys) : ∃ x ∈ xs, r x y := by
  induction h with
  | nil => cases hy
  | cons hr _ ih =>
    rcases mem_cons.mp hy with rfl | hy
    · exact ⟨_, mem_cons_self .., hr⟩
    · obtain ⟨x, hx, hxy⟩ := ih hy
      exact ⟨x, mem_cons_of_mem _ hx, hxy⟩

theorem forall₂_exists_right {r : α → β → Prop} {xs : List α} {ys : List β}
    (h : List.Forall₂ r xs ys) {x : α} (hx : x ∈ xs) : ∃ y ∈ ys, r x y :=
  forall₂_exists_left h.flip hx

/-- Two steps along related lists, from what the first list's elements allow. -/
theorem forall₂_trans {r : α → α → Prop} {as bs cs : List α}
    (hstep : ∀ a ∈ as, ∀ b c, r a b → r b c → r a c) (hab : List.Forall₂ r as bs)
    (hbc : List.Forall₂ r bs cs) : List.Forall₂ r as cs := by
  induction hab generalizing cs with
  | nil => exact hbc
  | @cons a b as bs hhead _ ih =>
    cases hbc with
    | @cons b c bs cs hhead' htail =>
      exact .cons (hstep a mem_cons_self b c hhead hhead')
        (ih (fun a ha => hstep a (mem_cons_of_mem _ ha)) htail)

/-- Replacing one element by a related one. -/
theorem forall₂_set {r : α → α → Prop} (hrefl : ∀ a, r a a) {as : List α} {i : Nat}
    {a a' : α} (hget : as[i]? = some a) (h : r a a') : List.Forall₂ r as (as.set i a') := by
  induction as generalizing i with
  | nil => cases hget
  | cons first rest ih =>
    cases i with
    | zero =>
      cases hget
      exact .cons h (forall₂_same.mpr fun a _ => hrefl a)
    | succ i => exact .cons (hrefl first) (ih hget)

theorem mapM_eq_ok {f : α → Except ε β} {xs : List α} {ys : List β} :
    xs.mapM f = .ok ys ↔ List.Forall₂ (fun x y => f x = .ok y) xs ys := by
  induction xs generalizing ys with
  | nil =>
    rw [mapM_nil, forall₂_nil_left_iff]
    exact ⟨fun h => (Except.ok.inj h).symm, fun h => by rw [h]; rfl⟩
  | cons x rest ih =>
    rw [mapM_cons, bind_eq_ok, forall₂_cons_left_iff]
    constructor
    · rintro ⟨y, hy, h⟩
      obtain ⟨zs, hzs, h⟩ := bind_eq_ok.mp h
      cases h
      exact ⟨y, zs, hy, ih.mp hzs, rfl⟩
    · rintro ⟨y, zs, hy, hzs, rfl⟩
      exact ⟨y, hy, bind_eq_ok.mpr ⟨zs, ih.mpr hzs, rfl⟩⟩

/-- Computations that succeed on every element succeed on the list. -/
theorem mapM_ok_of_forall {f : α → Except ε β} {g : α → β} {xs : List α}
    (h : ∀ x ∈ xs, f x = .ok (g x)) : xs.mapM f = .ok (xs.map g) := by
  rw [mapM_eq_ok, forall₂_map_right_iff, forall₂_same]
  exact h

theorem mapM_isOk {f : α → Except ε β} {xs : List α} (h : ∀ x ∈ xs, ∃ y, f x = .ok y) :
    ∃ ys, xs.mapM f = .ok ys := by
  induction xs with
  | nil => exact ⟨[], rfl⟩
  | cons x rest ih =>
    obtain ⟨y, hy⟩ := h x (mem_cons_self ..)
    obtain ⟨ys, hys⟩ := ih fun x hx => h x (mem_cons_of_mem _ hx)
    exact ⟨y :: ys, mapM_eq_ok.mpr (.cons hy (mapM_eq_ok.mp hys))⟩

theorem forM_eq_ok {f : α → Except ε Unit} {xs : List α} :
    forM xs f = .ok () ↔ ∀ x ∈ xs, f x = .ok () := by
  induction xs with
  | nil => simp [pure, Except.pure]
  | cons x rest ih =>
    rw [forM_cons, bind_eq_ok]
    simp only [mem_cons, forall_eq_or_imp, ← ih]
    constructor
    · rintro ⟨_, hx, h⟩
      exact ⟨hx, h⟩
    · rintro ⟨hx, h⟩
      exact ⟨(), hx, h⟩

/-- Visits the elements in order, each with the ones before it. -/
def forEarlier (check : List α → α → Except ε Unit) : List α → List α → Except ε Unit
  | _, [] => .ok ()
  | earlier, x :: rest => do
    check earlier x
    forEarlier check (earlier ++ [x]) rest

theorem forEarlier_eq_ok {check : List α → α → Except ε Unit} {earlier xs : List α} :
    forEarlier check earlier xs = .ok () ↔
      ∀ before x after, xs = before ++ x :: after → check (earlier ++ before) x = .ok () := by
  induction xs generalizing earlier with
  | nil => simp [forEarlier]
  | cons x rest ih =>
    rw [forEarlier, bind_eq_ok]
    constructor
    · rintro ⟨_, hx, hrest⟩ before y after heq
      cases before with
      | nil =>
        cases heq
        rw [append_nil]
        exact hx
      | cons b before =>
        cases heq
        have := ih.mp hrest before y after rfl
        rwa [append_assoc] at this
    · intro h
      refine ⟨(), ?_, ih.mpr ?_⟩
      · simpa using h [] x rest rfl
      · intro before y after heq
        rw [append_assoc]
        exact h (x :: before) y after (by rw [heq]; rfl)

/-- Folds agree when their steps agree on the elements. -/
theorem foldlM_congr_mem {f g : β → α → Except ε β} {l : List α} (b : β)
    (h : ∀ b, ∀ a ∈ l, f b a = g b a) : l.foldlM f b = l.foldlM g b := by
  induction l generalizing b with
  | nil => rfl
  | cons a rest ih =>
    rw [foldlM_cons, foldlM_cons, h b a (mem_cons_self ..)]
    have hrest : (fun b => rest.foldlM f b) = fun b => rest.foldlM g b :=
      funext fun b => ih b fun b a ha => h b a (mem_cons_of_mem _ ha)
    rw [hrest]

/-! # Postconditions of fallible code

Postconditions of fallible steps.  A step ensures a postcondition when its
result satisfies it, and when it fails only with faults that are not
excluded.
-/

variable {excluded : ε → Prop} {P : α → Prop} {Q : β → Prop}

/-- The result satisfies `post`, or the step fails with a fault that is not excluded. -/
def Ensures (excluded : ε → Prop) (post : α → Prop) : Except ε α → Prop
  | .ok a => post a
  | .error e => ¬ excluded e

namespace Ensures

theorem of_ok {x : Except ε α} {a : α} (h : Ensures excluded P x) (hx : x = .ok a) : P a := by
  rw [hx] at h
  exact h

theorem of_error {x : Except ε α} {e : ε} (h : Ensures excluded P x) (hx : x = .error e) :
    ¬ excluded e := by
  rw [hx] at h
  exact h

theorem mono {P' : α → Prop} {x : Except ε α} (h : Ensures excluded P x)
    (himp : ∀ a, x = .ok a → P a → P' a) : Ensures excluded P' x := by
  cases x with
  | ok a => exact himp a rfl h
  | error e => exact h

/-- Steps in sequence; the second may use where the first one ended. -/
theorem bind {x : Except ε α} {f : α → Except ε β} (h : Ensures excluded P x)
    (hf : ∀ a, x = .ok a → P a → Ensures excluded Q (f a)) : Ensures excluded Q (x >>= f) := by
  cases x with
  | ok a => exact hf a rfl h
  | error e => exact h

/-- An invariant of a loop. -/
theorem foldlM {f : α → β → Except ε α} {l : List β} {a : α}
    (hf : ∀ a, P a → ∀ b ∈ l, Ensures excluded P (f a b)) (ha : P a) :
    Ensures excluded P (l.foldlM f a) := by
  induction l generalizing a with
  | nil => exact ha
  | cons b rest ih =>
    rw [foldlM_cons]
    refine (hf a ha b mem_cons_self).bind fun a' _ ha' => ?_
    exact ih (fun a hP b hb => hf a hP b (mem_cons_of_mem _ hb)) ha'

end Ensures

end OctaCity.Lib
