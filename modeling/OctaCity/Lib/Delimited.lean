/-
  OctaCity.Lib.Delimited

  Codes that show where they end.  A code is delimited when two coded values
  that are followed by anything can only be the same text if the values and
  what follows them are the same.  Numbers of a fixed width are delimited;
  counted lists, texts after their length and tagged values are delimited when
  their parts are, so a record is read back section by section.
-/
import Mathlib.Data.List.Basic
import Mathlib.Tactic.Ring

namespace OctaCity.Lib

open List

variable {α γ β : Type}

/-- The codes of values that fit can be told apart whatever follows them. -/
def Delimited (code : α → List β) (fits : α → Prop) : Prop :=
  ∀ ⦃a b : α⦄, fits a → fits b → ∀ ⦃r s : List β⦄, code a ++ r = code b ++ s → a = b ∧ r = s

namespace Delimited

variable {code : α → List β} {fits : α → Prop}

/-- Codes of one length are delimited when they differ. -/
theorem of_length (hlen : ∀ a b, fits a → fits b → (code a).length = (code b).length)
    (hinj : ∀ a b, fits a → fits b → code a = code b → a = b) : Delimited code fits := by
  intro a b ha hb r s h
  obtain ⟨hcode, hrest⟩ := append_inj h (hlen a b ha hb)
  exact ⟨hinj a b ha hb hcode, hrest⟩

/-- A record is delimited when what it is coded as is delimited and determines it. -/
theorem comap {fits' : γ → Prop} (h : Delimited code fits) (f : γ → α)
    (hfits : ∀ c, fits' c → fits (f c)) (hinj : ∀ c d, f c = f d → c = d) :
    Delimited (fun c => code (f c)) fits' := by
  intro c d hc hd r s hsame
  obtain ⟨hvalue, hrest⟩ := h (hfits c hc) (hfits d hd) hsame
  exact ⟨hinj c d hvalue, hrest⟩

/-- Two lists of the same length are read back value by value. -/
theorem flatMap (h : Delimited code fits) {as bs : List α} (hlen : as.length = bs.length)
    (has : ∀ a ∈ as, fits a) (hbs : ∀ b ∈ bs, fits b) {r s : List β}
    (hsame : as.flatMap code ++ r = bs.flatMap code ++ s) : as = bs ∧ r = s := by
  induction as generalizing bs with
  | nil =>
    cases bs with
    | nil => exact ⟨rfl, hsame⟩
    | cons b bs => cases hlen
  | cons a as ih =>
    cases bs with
    | nil => cases hlen
    | cons b bs =>
      simp only [flatMap_cons, append_assoc] at hsame
      obtain ⟨rfl, htail⟩ := h (has a mem_cons_self) (hbs b mem_cons_self) hsame
      obtain ⟨rfl, hrest⟩ := ih (Nat.succ.inj hlen)
        (fun a ha => has a (mem_cons_of_mem _ ha))
        (fun b hb => hbs b (mem_cons_of_mem _ hb)) htail
      exact ⟨rfl, hrest⟩

/-- A list after its length is delimited. -/
theorem counted {count : Nat → List β} {countFits : Nat → Prop}
    (hcount : Delimited count countFits) (h : Delimited code fits) :
    Delimited (fun as : List α => count as.length ++ as.flatMap code)
      fun as => countFits as.length ∧ ∀ a ∈ as, fits a := by
  rintro as bs ⟨halength, has⟩ ⟨hblength, hbs⟩ r s hsame
  simp only [append_assoc] at hsame
  obtain ⟨hlen, hsame⟩ := hcount halength hblength hsame
  exact h.flatMap hlen has hbs hsame

/-- Single symbols are delimited. -/
theorem symbol : Delimited (fun b : β => [b]) fun _ => True := by
  rintro a b - - r s hsame
  exact List.cons.inj hsame

/-- A text after its length is delimited. -/
theorem text {count : Nat → List β} {countFits : Nat → Prop} (hcount : Delimited count countFits) :
    Delimited (fun bs : List β => count bs.length ++ bs) fun bs => countFits bs.length := by
  intro as bs ha hb r s hsame
  refine hcount.counted symbol ⟨ha, fun _ _ => trivial⟩ ⟨hb, fun _ _ => trivial⟩ ?_
  simpa [flatMap_singleton'] using hsame

end Delimited

/-! ## Numbers of a fixed width -/

/-- The lowest `width` bytes of a number, the highest byte first. -/
def bigEndian : Nat → Nat → List UInt8
  | 0, _ => []
  | width + 1, n => bigEndian width (n / 256) ++ [UInt8.ofNat n]

@[simp] theorem length_bigEndian (width n : Nat) : (bigEndian width n).length = width := by
  induction width generalizing n with
  | zero => rfl
  | succ width ih => rw [bigEndian, length_append, ih, length_singleton]

theorem bigEndian_injective {width m n : Nat} (hm : m < 256 ^ width) (hn : n < 256 ^ width)
    (h : bigEndian width m = bigEndian width n) : m = n := by
  induction width generalizing m n with
  | zero => omega
  | succ width ih =>
    rw [pow_succ] at hm hn
    obtain ⟨hhigh, hlow⟩ := append_inj h (by rw [length_bigEndian, length_bigEndian])
    have hdiv : m / 256 = n / 256 := ih (by omega) (by omega) hhigh
    have hmod : m % 256 = n % 256 := by
      have := congrArg UInt8.toNat (head_eq_of_cons_eq hlow)
      simpa using this
    omega

theorem delimited_bigEndian (width : Nat) : Delimited (bigEndian width) (· < 256 ^ width) :=
  Delimited.of_length (fun _ _ _ _ => by rw [length_bigEndian, length_bigEndian])
    fun _ _ => bigEndian_injective

end OctaCity.Lib
