/-
  OctaCity.Lib.Base64

  Base64 with the standard alphabet, padding and no stray bits in the last
  digit: what is encoded decodes to itself, and only symbols are decoded.
-/
import Mathlib.Data.List.Basic

namespace OctaCity.Lib.Base64

open Option

/-- `b'='` -/
def pad : UInt8 := 61

/-- The symbol of a digit below 64. -/
def symbol (digit : Nat) : UInt8 :=
  if digit < 26 then UInt8.ofNat (65 + digit)
  else if digit < 52 then UInt8.ofNat (97 + (digit - 26))
  else if digit < 62 then UInt8.ofNat (48 + (digit - 52))
  else if digit = 62 then 43
  else 47

def digit (byte : UInt8) : Option Nat :=
  if 65 ≤ byte ∧ byte ≤ 90 then some (byte.toNat - 65)
  else if 97 ≤ byte ∧ byte ≤ 122 then some (byte.toNat - 97 + 26)
  else if 48 ≤ byte ∧ byte ≤ 57 then some (byte.toNat - 48 + 52)
  else if byte = 43 then some 62
  else if byte = 47 then some 63
  else none

def encode : List UInt8 → List UInt8
  | [] => []
  | [a] => [symbol (a.toNat / 4), symbol (a.toNat % 4 * 16), pad, pad]
  | [a, b] =>
    [symbol (a.toNat / 4), symbol (a.toNat % 4 * 16 + b.toNat / 16), symbol (b.toNat % 16 * 4), pad]
  | a :: b :: c :: rest =>
    symbol (a.toNat / 4) :: symbol (a.toNat % 4 * 16 + b.toNat / 16) ::
      symbol (b.toNat % 16 * 4 + c.toNat / 64) :: symbol (c.toNat % 64) :: encode rest

/-- The last group, when it ends with padding. -/
def decodePadded (w x y : UInt8) : Option (List UInt8) :=
  if y = pad then do
    let p ← digit w
    let q ← digit x
    if q % 16 = 0 then some [UInt8.ofNat (p * 4 + q / 16)] else none
  else do
    let p ← digit w
    let q ← digit x
    let r ← digit y
    if r % 4 = 0 then some [UInt8.ofNat (p * 4 + q / 16), UInt8.ofNat (q % 16 * 16 + r / 4)]
    else none

def decodeGroup (w x y z : UInt8) : Option (List UInt8) := do
  let p ← digit w
  let q ← digit x
  let r ← digit y
  let s ← digit z
  some [UInt8.ofNat (p * 4 + q / 16), UInt8.ofNat (q % 16 * 16 + r / 4), UInt8.ofNat (r % 4 * 64 + s)]

def decode : List UInt8 → Option (List UInt8)
  | [] => some []
  | w :: x :: y :: z :: rest =>
    if rest = [] ∧ z = pad then decodePadded w x y
    else do
      let bytes ← decodeGroup w x y z
      let later ← decode rest
      some (bytes ++ later)
  | _ => none

variable {n : Nat}

theorem digit_symbol (h : n < 64) : digit (symbol n) = some n := by
  have hall : ∀ n < 64, digit (symbol n) = some n := by decide +kernel
  exact hall n h

theorem symbol_ne_pad (h : n < 64) : symbol n ≠ pad := by
  intro hpad
  have hdigit := digit_symbol h
  have hnone : digit pad = none := by decide
  rw [hpad, hnone] at hdigit
  cases hdigit

theorem symbol_lt (h : n < 64) : symbol n < 128 := by
  have hall : ∀ n < 64, symbol n < 128 := by decide +kernel
  exact hall n h

/-- A byte is put together from the digits it was split into. -/
theorem ofNat_eq {byte : UInt8} (h : n = byte.toNat) : UInt8.ofNat n = byte := by
  rw [h, UInt8.ofNat_toNat]

theorem decode_encode (bytes : List UInt8) : decode (encode bytes) = some bytes := by
  induction bytes using encode.induct with
  | case1 => rfl
  | case2 a =>
    have ha := a.toNat_lt
    have h₁ : a.toNat / 4 < 64 := by omega
    have h₂ : a.toNat % 4 * 16 < 64 := by omega
    rw [encode, decode, if_pos ⟨rfl, rfl⟩, decodePadded, if_pos rfl, digit_symbol h₁,
      digit_symbol h₂]
    have hbyte : a.toNat / 4 * 4 + a.toNat % 4 * 16 / 16 = a.toNat := by omega
    have hstray : a.toNat % 4 * 16 % 16 = 0 := by omega
    show (if _ then some [UInt8.ofNat _] else none) = _
    rw [if_pos hstray, ofNat_eq hbyte]
  | case3 a b =>
    have ha := a.toNat_lt
    have hb := b.toNat_lt
    have h₁ : a.toNat / 4 < 64 := by omega
    have h₂ : a.toNat % 4 * 16 + b.toNat / 16 < 64 := by omega
    have h₃ : b.toNat % 16 * 4 < 64 := by omega
    rw [encode, decode, if_pos ⟨rfl, rfl⟩, decodePadded, if_neg (symbol_ne_pad h₃),
      digit_symbol h₁, digit_symbol h₂, digit_symbol h₃]
    have hfirst : a.toNat / 4 * 4 + (a.toNat % 4 * 16 + b.toNat / 16) / 16 = a.toNat := by omega
    have hsnd : (a.toNat % 4 * 16 + b.toNat / 16) % 16 * 16 + b.toNat % 16 * 4 / 4 =
        b.toNat := by omega
    have hstray : b.toNat % 16 * 4 % 4 = 0 := by omega
    show (if _ then some [UInt8.ofNat _, UInt8.ofNat _] else none) = _
    rw [if_pos hstray, ofNat_eq hfirst, ofNat_eq hsnd]
  | case4 a b c rest ih =>
    have ha := a.toNat_lt
    have hb := b.toNat_lt
    have hc := c.toNat_lt
    have h₁ : a.toNat / 4 < 64 := by omega
    have h₂ : a.toNat % 4 * 16 + b.toNat / 16 < 64 := by omega
    have h₃ : b.toNat % 16 * 4 + c.toNat / 64 < 64 := by omega
    have h₄ : c.toNat % 64 < 64 := by omega
    rw [encode, decode, if_neg fun h => symbol_ne_pad h₄ h.2, decodeGroup, digit_symbol h₁,
      digit_symbol h₂, digit_symbol h₃, digit_symbol h₄, ih]
    have hfirst : a.toNat / 4 * 4 + (a.toNat % 4 * 16 + b.toNat / 16) / 16 = a.toNat := by omega
    have hsnd : (a.toNat % 4 * 16 + b.toNat / 16) % 16 * 16 +
        (b.toNat % 16 * 4 + c.toNat / 64) / 4 = b.toNat := by omega
    have hthird : (b.toNat % 16 * 4 + c.toNat / 64) % 4 * 64 + c.toNat % 64 = c.toNat := by omega
    show some ([UInt8.ofNat _, UInt8.ofNat _, UInt8.ofNat _] ++ rest) = _
    rw [ofNat_eq hfirst, ofNat_eq hsnd, ofNat_eq hthird]
    rfl

/-- What is encoded is ASCII. -/
theorem encode_lt (bytes : List UInt8) : ∀ byte ∈ encode bytes, byte < 128 := by
  have hpad : pad < 128 := by decide
  induction bytes using encode.induct with
  | case1 => exact fun byte hbyte => absurd hbyte List.not_mem_nil
  | case2 a =>
    have ha := a.toNat_lt
    have h₁ : symbol (a.toNat / 4) < 128 := symbol_lt (by omega)
    have h₂ : symbol (a.toNat % 4 * 16) < 128 := symbol_lt (by omega)
    simp [encode, h₁, h₂, hpad]
  | case3 a b =>
    have ha := a.toNat_lt
    have hb := b.toNat_lt
    have h₁ : symbol (a.toNat / 4) < 128 := symbol_lt (by omega)
    have h₂ : symbol (a.toNat % 4 * 16 + b.toNat / 16) < 128 := symbol_lt (by omega)
    have h₃ : symbol (b.toNat % 16 * 4) < 128 := symbol_lt (by omega)
    simp [encode, h₁, h₂, h₃, hpad]
  | case4 a b c rest ih =>
    have ha := a.toNat_lt
    have hb := b.toNat_lt
    have hc := c.toNat_lt
    have h₁ : symbol (a.toNat / 4) < 128 := symbol_lt (by omega)
    have h₂ : symbol (a.toNat % 4 * 16 + b.toNat / 16) < 128 := symbol_lt (by omega)
    have h₃ : symbol (b.toNat % 16 * 4 + c.toNat / 64) < 128 := symbol_lt (by omega)
    have h₄ : symbol (c.toNat % 64) < 128 := symbol_lt (by omega)
    rw [encode]
    simp only [List.forall_mem_cons]
    exact ⟨h₁, h₂, h₃, h₄, ih⟩

/-- Only symbols and padding are decoded. -/
theorem decode_symbols {text bytes : List UInt8} (h : decode text = some bytes) :
    ∀ byte ∈ text, byte = pad ∨ (digit byte).isSome := by
  induction text using decode.induct generalizing bytes with
  | case1 => exact fun byte hbyte => absurd hbyte List.not_mem_nil
  | case2 w x y z rest hpad =>
    obtain ⟨rfl, rfl⟩ := hpad
    rw [decode, if_pos ⟨rfl, rfl⟩, decodePadded] at h
    split at h
    · rename_i hy
      obtain ⟨p, hp, h⟩ := bind_eq_some_iff.mp h
      obtain ⟨q, hq, -⟩ := bind_eq_some_iff.mp h
      simp [hp, hq, hy]
    · obtain ⟨p, hp, h⟩ := bind_eq_some_iff.mp h
      obtain ⟨q, hq, h⟩ := bind_eq_some_iff.mp h
      obtain ⟨r, hr, -⟩ := bind_eq_some_iff.mp h
      simp [hp, hq, hr]
  | case3 w x y z rest hpad ih =>
    rw [decode, if_neg hpad] at h
    obtain ⟨group, hgroup, h⟩ := bind_eq_some_iff.mp h
    obtain ⟨later, hlater, -⟩ := bind_eq_some_iff.mp h
    obtain ⟨p, hp, hgroup⟩ := bind_eq_some_iff.mp hgroup
    obtain ⟨q, hq, hgroup⟩ := bind_eq_some_iff.mp hgroup
    obtain ⟨r, hr, hgroup⟩ := bind_eq_some_iff.mp hgroup
    obtain ⟨s, hs, -⟩ := bind_eq_some_iff.mp hgroup
    simpa [hp, hq, hr, hs] using ih hlater
  | case4 text hnil hgroup =>
    rw [decode] at h
    · cases h
    · exact hnil
    · exact hgroup

end OctaCity.Lib.Base64
